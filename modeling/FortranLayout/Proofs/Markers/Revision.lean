import FortranLayout.Continuation.Markers
import FortranLayout.Proofs.Code

/-!
# Revising the markers of an element

What inserting and removing markers does to a tree, as a function of elements. The elements below a
node are taken from the last to the first; each is met with those after it already revised.

* `MarkerOptions.outcome` is what becomes of one marker, given its tail and the elements after it.
* `Element.reviseAll` goes through a list of elements, `Element.revise` through what is below an
  element.
-/

namespace FortranLayout

namespace Element

/-- A marker with the given tail. -/
def marker (tail : List Char) : Element :=
  { tag := "cnt", text := "&", tail := String.ofList tail }

/-- Whether the element is a comment or a directive. -/
def isCommentLike (e : Element) : Bool := e.kind.isCommentLike

/-- The element with something appended to its tail. -/
def appendTail (e : Element) (s : List Char) : Element :=
  { e with tail := e.tail ++ String.ofList s }

end Element

/-- The beginning of a text that is layout only. -/
def layoutBefore (s : List Char) : List Char := s.takeWhile (!isCode ·)

/-- A text from its first character of code on. -/
def codeFrom (s : List Char) : List Char := s.dropWhile (!isCode ·)

theorem layoutBefore_append_codeFrom (s : List Char) : layoutBefore s ++ codeFrom s = s :=
  List.takeWhile_append_dropWhile

theorem not_isBlank_of_isCode {c : Char} (h : isCode c = true) : (!Text.isBlank c) = true := by
  simp only [isCode, Bool.and_eq_true, bne_iff_ne] at h
  simp [Text.isBlank, h.1.1]

/-- What becomes of a marker. -/
structure MarkerOutcome where
  /-- What is appended to the text before the marker. -/
  lead : List Char := []
  /-- The tail with which the marker stays, if it stays. -/
  tail? : Option (List Char)
  /-- The elements after the marker. -/
  after : List Element
  inserted : Nat := 0
  removed : Nat := 0

namespace MarkerOutcome

/-- The marker and the elements after it are left alone. -/
def stays (tail : List Char) (es : List Element) : MarkerOutcome :=
  { tail? := some tail, after := es }

/-- Comments with a new marker after them, to which the code in the tail of the last one goes. -/
def beginAfter (comments : List Element) : List Element :=
  match comments.getLast? with
  | none => [.marker [' ']]
  | some last =>
    comments.dropLast ++
      [{ last with tail := String.ofList (layoutBefore last.tail.toList) },
        .marker (' ' :: codeFrom last.tail.toList)]

/-- A marker is put before the first code after a marker that ends a line: code in the tail of that
marker, or the next element that is no comment. -/
def addBegin (tail : List Char) (es : List Element) : MarkerOutcome :=
  if !(codeFrom tail).isEmpty then
    { tail? := some (layoutBefore tail), after := .marker (' ' :: codeFrom tail) :: es,
      inserted := 1 }
  else if (es.dropWhile Element.isCommentLike).head?.any (·.kind != .continuation) then
    { tail? := some tail
      after := beginAfter (es.takeWhile Element.isCommentLike) ++ es.dropWhile Element.isCommentLike
      inserted := 1 }
  else stays tail es

/-- The marker goes, with the comments after it; a directive among them keeps itself and the marker.
-/
def remove (tail : List Char) (es : List Element) : MarkerOutcome :=
  let comments := es.takeWhile Element.isCommentLike
  let rest := es.dropWhile Element.isCommentLike
  if comments.any (·.kind == .directive) then
    stays tail (comments.filter (·.kind == .directive) ++ rest)
  else { lead := Text.trim tail ++ [' '], tail? := none, after := rest, removed := 1 }

end MarkerOutcome

namespace MarkerOptions

/-- Whether a marker with the given tail and elements after it ends its line. -/
def endsLine (tail : List Char) (es : List Element) : Bool :=
  Text.hasNewline tail || !(es.takeWhile Element.isCommentLike).isEmpty

/-- What becomes of a marker with the given tail and elements after it. -/
def outcome (o : MarkerOptions) (tail : List Char) (es : List Element) : MarkerOutcome :=
  if endsLine tail es && o.addBegin then .addBegin tail es
  else if o.removes (endsLine tail es) then .remove tail es
  else .stays tail es

/-- What becomes of an element of the given kind: anything but a marker stays. -/
def outcomeOf (o : MarkerOptions) (kind : Kind) (tail : List Char) (es : List Element) :
    MarkerOutcome :=
  if kind == .continuation then o.outcome tail es else .stays tail es

/-- Markers are not both added and removed. -/
def Consistent (o : MarkerOptions) : Prop :=
  o.addBegin = true → ∀ endsLine, o.removes endsLine = false

theorem consistent_of_addBegin {o : MarkerOptions} (h : o.addBegin = false) : o.Consistent :=
  fun hadd => by
  rw [h] at hadd
  cases hadd

theorem consistent_of_validate {o : MarkerOptions} (h : o.validate = .ok ()) : o.Consistent := by
  intro ha endsLine
  rw [validate] at h
  rw [removes]
  split at h
  · cases h
  · split at h
    · cases h
    · split at h
      · cases h
      · rename_i hall hbegin
        rw [ha, Bool.true_and, Bool.not_eq_true] at hall hbegin
        rw [hall, hbegin]
        rfl

end MarkerOptions

/-- A list of elements after revision. -/
structure Revision where
  /-- What is appended to the text before the elements. -/
  lead : List Char := []
  elements : List Element := []
  inserted : Nat := 0
  removed : Nat := 0

/-- Revises `e`, given the revisions of what is below it and of what is after it. -/
def Revision.cons (o : MarkerOptions) (e : Element) (below after : Revision) : Revision :=
  let revised : Element :=
    { e with text := e.text ++ String.ofList below.lead, children := below.elements }
  let tail := e.tail.toList ++ after.lead
  let outcome := o.outcomeOf e.kind tail after.elements
  { lead := outcome.lead
    elements :=
      (outcome.tail?.map fun tail => { revised with tail := String.ofList tail }).toList ++
        outcome.after
    inserted := outcome.inserted + below.inserted + after.inserted
    removed := outcome.removed + below.removed + after.removed }

namespace Element

mutual

/-- Revises what is below an element. -/
def revise (o : MarkerOptions) : Element → Revision
  | ⟨_, _, _, cs⟩ => reviseAll o {} cs

/-- Revises a list of elements, with `after` for what comes after them. -/
def reviseAll (o : MarkerOptions) (after : Revision) : List Element → Revision
  | [] => after
  | e :: es => .cons o e (e.revise o) (reviseAll o after es)

end

/-- The element with everything below it revised. -/
def revised (o : MarkerOptions) (e : Element) : Element :=
  { e with
    text := e.text ++ String.ofList (e.revise o).lead
    children := (e.revise o).elements }

theorem revise_mk (o : MarkerOptions) (tag text tail : String) (cs : List Element) :
    revise o ⟨tag, text, tail, cs⟩ = reviseAll o {} cs := by
  rw [revise]

theorem reviseAll_append (o : MarkerOptions) (after : Revision) (es fs : List Element) :
    reviseAll o after (es ++ fs) = reviseAll o (reviseAll o after fs) es := by
  induction es with
  | nil => simp [reviseAll]
  | cons e es ih => simp [reviseAll, ih]

/-- What is below an element does not depend on its tail. -/
theorem revise_with_tail (o : MarkerOptions) (e : Element) (t : String) :
    ({ e with tail := t } : Element).revise o = e.revise o := by
  obtain ⟨tag, text, tail, cs⟩ := e
  rw [revise_mk, revise_mk]

/-- What is counted after a list of elements is added to what is counted in it. -/
theorem reviseAll_counts (o : MarkerOptions) (after : Revision) (es : List Element) :
    reviseAll o after es =
      { reviseAll o { after with inserted := 0, removed := 0 } es with
        inserted :=
          (reviseAll o { after with inserted := 0, removed := 0 } es).inserted + after.inserted
        removed :=
          (reviseAll o { after with inserted := 0, removed := 0 } es).removed +
            after.removed } := by
  induction es with
  | nil => simp [reviseAll]
  | cons e es ih =>
    simp only [reviseAll]
    rw [ih]
    simp only [Revision.cons, Revision.mk.injEq, true_and]
    omega

/-- Where text goes that comes before a list of elements: to the tail of the last element before it,
or to the text of the parent. The pair has that text and the elements before. -/
def placeLead (text : String) (es : List Element) (lead : List Char) : String × List Element :=
  match es.getLast? with
  | none => (text ++ String.ofList lead, [])
  | some e => (text, es.dropLast ++ [e.appendTail lead])

@[simp] theorem placeLead_nil (text : String) (lead : List Char) :
    placeLead text [] lead = (text ++ String.ofList lead, []) := rfl

@[simp] theorem placeLead_concat (text : String) (es : List Element) (e : Element)
    (lead : List Char) :
    placeLead text (es ++ [e]) lead = (text, es ++ [e.appendTail lead]) := by
  simp [placeLead]

theorem length_placeLead (text : String) (es : List Element) (lead : List Char) :
    (placeLead text es lead).2.length = es.length := by
  rcases List.eq_nil_or_concat es with rfl | ⟨es, e, rfl⟩ <;> simp

theorem appendTail_nil (e : Element) : e.appendTail [] = e := by
  cases e
  simp [appendTail]

theorem placeLead_nil_lead (text : String) (es : List Element) :
    placeLead text es [] = (text, es) := by
  rcases List.eq_nil_or_concat es with rfl | ⟨es, e, rfl⟩ <;> simp [appendTail_nil]

theorem cons_appendTail (o : MarkerOptions) (e : Element) (after : Revision) :
    Revision.cons o e (e.revise o) after =
      Revision.cons o (e.appendTail after.lead) ((e.appendTail after.lead).revise o)
        { after with lead := [] } := by
  rw [appendTail, revise_with_tail]
  simp [Revision.cons, kind]

/-- What goes before a revised list may be put in its place first. -/
theorem reviseAll_placeLead (o : MarkerOptions) (after : Revision) (text : String)
    (es : List Element) :
    text ++ String.ofList (reviseAll o after es).lead =
        (placeLead text es after.lead).1 ++
          String.ofList
            (reviseAll o { after with lead := [] } (placeLead text es after.lead).2).lead ∧
      { reviseAll o after es with lead := [] } =
        { reviseAll o { after with lead := [] } (placeLead text es after.lead).2
          with lead := [] } := by
  rcases List.eq_nil_or_concat es with rfl | ⟨es, e, rfl⟩
  · simp [reviseAll]
  · simp only [List.concat_eq_append, placeLead_concat, reviseAll_append, reviseAll,
      cons_appendTail o e after, and_self]

/-- The outcome `after` put in place first, then the elements before it revised with nothing counted
yet. -/
theorem reviseAll_of_placed (o : MarkerOptions) (after : Revision) (text : String)
    (es : List Element) {r : Revision}
    (hr : r = reviseAll o { elements := after.elements } (placeLead text es after.lead).2) :
    text ++ String.ofList (reviseAll o after es).lead =
        (placeLead text es after.lead).1 ++ String.ofList r.lead ∧
      (reviseAll o after es).elements = r.elements ∧
      (reviseAll o after es).inserted = r.inserted + after.inserted ∧
      (reviseAll o after es).removed = r.removed + after.removed := by
  obtain ⟨hlead, hrest⟩ := reviseAll_placeLead o after text es
  rw [reviseAll_counts o { after with lead := [] }] at hlead hrest
  subst hr
  simp only [Revision.mk.injEq, true_and] at hlead hrest
  exact ⟨hlead, hrest⟩

end Element

end FortranLayout
