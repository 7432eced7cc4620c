import FortranLayout.Proofs.Alignment.Restriction
import FortranLayout.Proofs.Indentation.DirectiveLines

/-!
# The column that the lines of a statement share

The walk through a statement goes on with the text of the current line until it meets the first
marker that ends a line, and finds the column there. From then on the column stays, through
expressions of any depth, since in between no line ends but after markers, comments and directives.
So each marker that ends a line starts the next one at the column of the first of them
(`tail_updateContinuation_alignOnly`), unless a directive follows it.
-/

namespace FortranLayout

open Text (hasNewline squeeze blanks)

/-! ## Lines of a text -/

namespace Text

/-- What follows the last newline of a text; the whole text if it has none. -/
def lastLine (s : List Char) : List Char := (Alignment.afterLastNewline? s).getD s

/-- Each newline is followed by exactly `n` blanks. -/
def LinesStartAt (n : Nat) (s : List Char) : Prop :=
  ∀ u v, s = u ++ '\n' :: v → ∃ w, v = blanks n ++ w ∧ w.head? ≠ some ' '

variable {s t : List Char}

theorem afterLastNewline?_eq_none :
    Alignment.afterLastNewline? s = none ↔ hasNewline s = false := by
  induction s with
  | nil => simp [Alignment.afterLastNewline?, hasNewline]
  | cons c s ih =>
    rw [Alignment.afterLastNewline?, hasNewline_cons, Bool.or_eq_false_iff, ← ih]
    cases Alignment.afterLastNewline? s with
    | none => simp
    | some line => simp

theorem hasNewline_of_afterLastNewline? {line : List Char}
    (h : Alignment.afterLastNewline? s = some line) :
    hasNewline line = false := by
  induction s with
  | nil => cases h
  | cons c s ih =>
    rw [Alignment.afterLastNewline?] at h
    cases hs : Alignment.afterLastNewline? s with
    | some line' =>
      rw [hs] at h
      exact ih (hs.trans h)
    | none =>
      rw [hs] at h
      dsimp only at h
      split at h
      · obtain rfl := Option.some.inj h
        exact afterLastNewline?_eq_none.mp hs
      · cases h

theorem lastLine_of_not_hasNewline (h : hasNewline s = false) : lastLine s = s := by
  rw [lastLine, afterLastNewline?_eq_none.mpr h]
  rfl

theorem hasNewline_lastLine (s : List Char) : hasNewline (lastLine s) = false := by
  rw [lastLine]
  cases hs : Alignment.afterLastNewline? s with
  | none => exact afterLastNewline?_eq_none.mp hs
  | some line => exact hasNewline_of_afterLastNewline? hs

/-- A text begins a new line, or goes on with the last one. -/
theorem lastLine_append (s t : List Char) :
    lastLine (s ++ t) = if hasNewline t then lastLine t else lastLine s ++ t := by
  rw [lastLine, afterLastNewline?_append]
  cases ht : Alignment.afterLastNewline? t with
  | none =>
    rw [afterLastNewline?_eq_none.mp ht, if_neg Bool.false_ne_true, lastLine]
    cases Alignment.afterLastNewline? s <;> rfl
  | some line =>
    have hnewline : hasNewline t = true := by
      rw [← Bool.not_eq_false, ← afterLastNewline?_eq_none, ht]
      exact Option.some_ne_none line
    rw [hnewline, if_pos rfl, lastLine, ht]
    rfl

/-- What is before the last line does not matter behind it. -/
theorem lastLine_lastLine_append (s t : List Char) :
    lastLine (lastLine s ++ t) = lastLine (s ++ t) := by
  rw [lastLine_append, lastLine_append, lastLine_of_not_hasNewline (hasNewline_lastLine s)]

theorem linesStartAt_everywhere (n : Nat) (s : List Char) :
    LinesStartAt n ((Gaps.after '\n' n).everywhere s) := by
  intro u v h
  induction s using lines_induct generalizing u with
  | nil => simp at h
  | line s ih =>
    rw [Pattern.everywhere_after_newline, List.cons_append] at h
    cases u with
    | nil =>
      refine ⟨_, (List.cons.inj h).2.symm, ?_⟩
      rw [Pattern.head?_everywhere_after_newline]
      exact fun hhead => absurd (isBlank_head?_dropWhile s ' ' hhead) (by decide)
    | cons c u =>
      -- There is no newline among the blanks.
      rcases List.append_eq_append_iff.mp (List.cons.inj h).2
        with ⟨u', _, hrest⟩ | ⟨u', hblanks, hrest⟩
      · exact ih u' hrest
      · cases u' with
        | nil => exact ih [] hrest.symm
        | cons d u' =>
          obtain rfl : '\n' = d := (List.cons.inj hrest).1
          have hmem : '\n' ∈ blanks n := hblanks ▸ List.mem_append_right u List.mem_cons_self
          exact absurd (List.eq_of_mem_replicate hmem) (by decide)
  | cons c s hc ih =>
    rw [Pattern.everywhere_after_newline_of_ne hc] at h
    cases u with
    | nil => exact absurd (List.cons.inj h).1 hc
    | cons c' u => exact ih u (List.cons.inj h).2

end Text

/-! ## Markers that end a line -/

namespace Forest

/-- The sibling directly after a node. -/
def nextSibling? (f : Forest) (i : NodeId) : Option NodeId := (f.siblingsAfter i).head?

/-- The node is a marker that ends its line: with a newline in its tail, or a comment right after
it. -/
def endsLine (f : Forest) (i : NodeId) : Bool :=
  f.kind i == .continuation &&
    (hasNewline (f.tail i).toList || (f.nextSibling? i).any (f.kind · == .comment))

/-- What a slot shows of the statement: comments and markers have no text that counts. -/
def shown (f : Forest) : TextSlot → List Char
  | .text i => if f.kind i = .comment ∨ f.kind i = .continuation then [] else (f.text i).toList
  | .tail i => (f.tail i).toList

/-- The line on which a node is, up to the node. -/
def lineBefore (f : Forest) (i : NodeId) : List Char :=
  Text.lastLine ((f.slotsBefore i).flatMap f.shown)

/-- The column for the lines that continue the line on which the marker is. -/
def markerColumn (f : Forest) (i : NodeId) : Nat :=
  (f.anchorClass i).column (f.lineBefore i) ((f.nextSibling? i).all (f.kind · == .continuation))

/-- The text of the node has no newline, and its tail has one only if the node is a marker, a
comment or a directive. -/
def BreaksAtMarker (f : Forest) (i : NodeId) : Prop :=
  hasNewline (f.text i).toList = false ∧
    (hasNewline (f.tail i).toList = true → f.kind i ∈ [.continuation, .comment, .directive])

variable {f g : Forest}

theorem SameShape.anchorClass_eq (h : f.SameShape g) (i : NodeId) :
    g.anchorClass i = f.anchorClass i := by
  have hnearest (fuel i : Nat) :
      g.nearestStatementWithin? fuel i = f.nearestStatementWithin? fuel i := by
    induction fuel generalizing i with
    | zero => rfl
    | succ fuel ih =>
      rw [nearestStatementWithin?_succ, nearestStatementWithin?_succ, h.kind_eq, h.parent?_eq]
      congr 1
      congr 1
      funext p
      exact ih p
  rw [anchorClass, anchorClass, nearestStatement?, nearestStatement?, h.size_eq, hnearest]
  split
  · rw [h.kind_eq]
  · rfl

theorem Retailed.sameShape {js : List Nat} (h : f.Retailed g js) : f.SameShape g :=
  ⟨h.size_eq, h.tag_eq, h.children_eq, h.parent?_eq⟩

theorem nextSibling?_of_followedBy {e : Element} {m : NodeId} {next : Option NodeId}
    (h : (ofElement e).FollowedBy m next) : (ofElement e).nextSibling? m = next := by
  obtain ⟨q, xs, ys, hq, rfl⟩ := h
  have hmem : m ∈ (ofElement e).children q := hq ▸ List.mem_append_right xs List.mem_cons_self
  have hnot : m ∉ xs := by
    have hnodup : ((ofElement e).children q).Nodup :=
      (pairwise_children_ofElement e q).imp fun hlt => Nat.ne_of_lt hlt
    rw [hq, List.nodup_middle, List.nodup_cons, List.mem_append, not_or] at hnodup
    exact hnodup.1.1
  have hindex : (ofElement e).childIndex? q m = some xs.length := by
    rw [childIndex?, hq, List.idxOf?_eq_some_iff]
    refine ⟨by simp, by simp, fun k hk h => hnot ?_⟩
    rw [List.getElem_append_left hk] at h
    exact h ▸ List.getElem_mem hk
  have hposition : (ofElement e).position? m = some (q, xs.length) := by
    rw [position?, (ordered_ofElement e).parent?_child q m hmem, Option.bind_some, hindex]
    rfl
  rw [nextSibling?, siblingsAfter, hposition]
  simp [hq]

end Forest

namespace Margin

variable (m : Margin) (c : AnchorClass) (kind : Kind) (tail : String) (next : Option Kind)

theorem squeeze_tailAfter (afterComment : Bool) :
    squeeze (m.tailAfter c kind tail next afterComment).toList = squeeze tail.toList := by
  rw [tailAfter]
  split
  · rw [startAt, String.toList_ofList, Text.Pattern.squeeze_everywhere]
  · rfl

theorem line_found : (m.found c kind tail next).line = m.line := by
  obtain ⟨line, column⟩ := m
  rw [found]
  split
  · cases column <;> rfl
  · rfl

theorem column_found : (m.found c kind tail next).column =
    if isEnd kind tail next then
      some (m.column.getD (c.column m.line (next.all (· == .continuation))))
    else m.column := by
  obtain ⟨line, column⟩ := m
  rw [found]
  split
  · cases column <;> rfl
  · rfl

end Margin

/-! ## The walk -/

/-- The walk through `f` has met the nodes `seen` and read the slots `before`. Until the first
marker that ends a line it has changed nothing, and then all those markers have its column. -/
structure Reached (f : Forest) (seen : List NodeId) (before : List TextSlot)
    (a : Alignment) : Prop where
  shape : f.SameShape a.forest
  text_eq : ∀ j, a.forest.text j = f.text j
  squeeze_eq : ∀ j, squeeze (a.forest.tail j).toList = squeeze (f.tail j).toList
  untouched : ∀ j, j ∉ seen ∨ a.column = none → a.forest.tail j = f.tail j
  column_eq : a.column = (seen.find? f.endsLine).map f.markerColumn
  line_eq : a.column = none → a.line = Text.lastLine (before.flatMap f.shown)
  oneLine : hasNewline a.line = false
  aligned : ∀ n, a.column = some n → ∀ j ∈ seen, f.endsLine j = true →
    (f.nextSibling? j).any (f.kind · == .directive) = false →
      a.forest.tail j = Margin.startAt (f.tail j) n

/-- The walk comes to node `i`, a child of `p` with a node of kind `next` after it. -/
structure Forest.Meets (f : Forest) (seen : List NodeId) (before : List TextSlot) (p i : NodeId)
    (next : Option Kind) : Prop where
  lt : i < f.size
  new : i ∉ seen
  class_eq : f.anchorClass i = (f.anchorClass p).within (f.kind i)
  next_eq : (f.nextSibling? i).map f.kind = next
  slots_eq : f.slotsBefore i = before

namespace Forest.Meets

variable {f : Forest} {seen : List NodeId} {before : List TextSlot} {i p : NodeId}
  {next : Option Kind}

theorem next_any (h : f.Meets seen before p i next) (k : Kind) :
    (next == some k) = (f.nextSibling? i).any (f.kind · == k) := by
  rw [← h.next_eq]
  cases f.nextSibling? i <;> rfl

theorem next_all (h : f.Meets seen before p i next) :
    next.all (· == .continuation) = (f.nextSibling? i).all (f.kind · == .continuation) := by
  rw [← h.next_eq]
  cases f.nextSibling? i <;> rfl

/-- A marker is in the statement around it. -/
theorem class_of_endsLine (h : f.Meets seen before p i next) (hends : f.endsLine i = true) :
    f.anchorClass p = f.anchorClass i := by
  rw [endsLine, Bool.and_eq_true, beq_iff_eq] at hends
  rw [h.class_eq, hends.1]
  rfl

end Forest.Meets

namespace Reached

open Forest

variable {f : Forest} {seen : List NodeId} {before : List TextSlot} {a : Alignment} {i p : NodeId}
  {next : Option Kind} {afterComment : Bool}

theorem hasNewline_tail (h : Reached f seen before a) (j : NodeId) :
    hasNewline (a.forest.tail j).toList = hasNewline (f.tail j).toList :=
  Text.hasNewline_of_squeeze (h.squeeze_eq j)

/-- The text of a node goes on the line. -/
theorem readText (h : Reached f seen before a) (hi : hasNewline (f.text i).toList = false) :
    Reached f seen (before ++ [.text i]) (a.readText i) := by
  have hread : a.readText i = { a with line := a.line ++ f.shown (.text i) } := by
    unfold Alignment.readText
    rw [shown, h.shape.kind_eq, h.text_eq]
    cases f.kind i <;> simp
  have hshown : hasNewline (f.shown (.text i)) = false := by
    rw [shown]
    split
    · rfl
    · exact hi
  rw [hread]
  refine ⟨h.shape, h.text_eq, h.squeeze_eq, h.untouched, h.column_eq,
    fun hnone => ?_, ?_, h.aligned⟩
  · dsimp only
    rw [h.line_eq hnone, List.flatMap_append, List.flatMap_singleton, Text.lastLine_append,
      if_neg (by simp [hshown])]
  · dsimp only
    rw [hasNewline_append, h.oneLine, hshown]
    rfl

/-- The tail of a node goes on the line. Where it ends the line, the statement goes on. -/
theorem readTail (h : Reached f seen before a)
    (hi : hasNewline (f.tail i).toList = true → f.kind i ∈ [.continuation, .comment, .directive]) :
    Reached f seen (before ++ [.tail i]) (a.readTail i) := by
  have hread :
      a.readTail i = { a with line := Text.lastLine (a.line ++ (a.forest.tail i).toList) } := by
    rw [Alignment.readTail, Text.lastLine]
    cases hline : Alignment.afterLastNewline? (a.line ++ (a.forest.tail i).toList) with
    | none => rfl
    | some rest =>
      have hnewline : hasNewline (f.tail i).toList = true := by
        rw [← h.hasNewline_tail, ← Bool.not_eq_false]
        intro hnot
        have hnone := Text.afterLastNewline?_eq_none.mpr
          (show hasNewline (a.line ++ (a.forest.tail i).toList) = false by
            rw [hasNewline_append, h.oneLine, hnot]; rfl)
        rw [hline] at hnone
        cases hnone
      have hkind := hi hnewline
      rw [← h.shape.kind_eq] at hkind
      simp only [List.mem_cons, List.not_mem_nil, or_false] at hkind
      rcases hkind with hkind | hkind | hkind <;> rw [hkind] <;> rfl
  rw [hread]
  refine ⟨h.shape, h.text_eq, h.squeeze_eq, h.untouched, h.column_eq, fun hnone => ?_,
    Text.hasNewline_lastLine _, h.aligned⟩
  dsimp only
  rw [h.line_eq hnone, Text.lastLine_lastLine_append, h.untouched i (Or.inr hnone),
    List.flatMap_append, List.flatMap_singleton]
  rfl

theorem isEndMarker_eq (h : Reached f seen before a) (hi : f.Meets seen before p i next) :
    a.isEndMarker i next = f.endsLine i := by
  rw [Alignment.isEndMarker, h.shape.kind_eq, h.untouched i (Or.inl hi.new), hi.next_any, endsLine]

/-! ### Aligning one tail -/

theorem line_alignAfter (h : Reached f seen before a) (afterComment : Bool)
    (hi : f.Meets seen before p i next) :
    (a.alignAfter p i next afterComment).line = a.line := by
  obtain ⟨hmargin, _, _⟩ :=
    Alignment.alignAfter_spec (p := p) (h.shape.size_eq ▸ hi.lt) next afterComment
  exact (congrArg Margin.line hmargin).trans (Margin.line_found _ _ _ _ _)

/-- The column is found at the first marker that ends a line. -/
theorem column_alignAfter (h : Reached f seen before a) (afterComment : Bool)
    (hi : f.Meets seen before p i next) :
    (a.alignAfter p i next afterComment).column =
      ((seen ++ [i]).find? f.endsLine).map f.markerColumn := by
  obtain ⟨hmargin, _, _⟩ :=
    Alignment.alignAfter_spec (p := p) (h.shape.size_eq ▸ hi.lt) next afterComment
  have hend : Margin.isEnd (a.forest.kind i) (a.forest.tail i) next = f.endsLine i :=
    h.isEndMarker_eq hi
  refine (congrArg Margin.column hmargin).trans ?_
  rw [Margin.column_found, hend, List.find?_append]
  have hcolumn : a.margin.column = (seen.find? f.endsLine).map f.markerColumn := h.column_eq
  cases hends : f.endsLine i with
  | false =>
    rw [if_neg Bool.false_ne_true, hcolumn]
    simp [hends]
  | true =>
    have hsingle : [i].find? f.endsLine = some i := by simp [hends]
    rw [if_pos rfl, hsingle, hcolumn]
    cases hfirst : seen.find? f.endsLine with
    | some j => rfl
    | none =>
      have hline : a.margin.line = f.lineBefore i := by
        rw [lineBefore, hi.slots_eq]
        exact h.line_eq (by rw [h.column_eq, hfirst, Option.map_none])
      rw [h.shape.anchorClass_eq, hi.class_of_endsLine hends, hline, hi.next_all]
      rfl

/-- Before a column is found nothing is aligned. -/
theorem tail_alignAfter_of_none (h : Reached f seen before a) (hi : f.Meets seen before p i next)
    (hcomment : afterComment = true → ((seen ++ [i]).find? f.endsLine).isSome)
    (hnone : (a.alignAfter p i next afterComment).column = none) :
    a.column = none ∧ (a.alignAfter p i next afterComment).forest.tail i = f.tail i := by
  obtain ⟨_, _, htail⟩ :=
    Alignment.alignAfter_spec (p := p) (h.shape.size_eq ▸ hi.lt) next afterComment
  have hend : Margin.isEnd (a.forest.kind i) (a.forest.tail i) next = f.endsLine i :=
    h.isEndMarker_eq hi
  rw [h.column_alignAfter _ hi, Option.map_eq_none_iff] at hnone
  rw [hnone] at hcomment
  rw [List.find?_append, Option.or_eq_none_iff] at hnone
  have hmargin : a.margin.column = none := by
    rw [Alignment.margin, h.column_eq, hnone.1, Option.map_none]
  have hends : f.endsLine i = false := by simpa using hnone.2
  have hafter : afterComment = false := by simpa using hcomment
  refine ⟨hmargin, ?_⟩
  rw [htail, Margin.tailAfter, Margin.continues, hend, hends, hafter, hmargin,
    h.untouched i (Or.inl hi.new)]
  rfl

/-- A marker that ends a line starts the next one at the column, unless a directive is there. -/
theorem tail_alignAfter_of_endsLine (h : Reached f seen before a) (afterComment : Bool)
    (hi : f.Meets seen before p i next) (hends : f.endsLine i = true)
    (hdirective : (f.nextSibling? i).any (f.kind · == .directive) = false)
    {n : Nat} (hn : (a.alignAfter p i next afterComment).column = some n) :
    (a.alignAfter p i next afterComment).forest.tail i = Margin.startAt (f.tail i) n := by
  obtain ⟨hmargin, _, htail⟩ :=
    Alignment.alignAfter_spec (p := p) (h.shape.size_eq ▸ hi.lt) next afterComment
  have hend : Margin.isEnd (a.forest.kind i) (a.forest.tail i) next = f.endsLine i :=
    h.isEndMarker_eq hi
  have hcolumn : (a.alignAfter p i next afterComment).margin.column = some n := hn
  rw [htail, Margin.tailAfter, Margin.continues, hend, hends, bne, hi.next_any, hdirective,
    ← hmargin, hcolumn, h.untouched i (Or.inl hi.new)]
  rfl

theorem alignAfter (h : Reached f seen before a) (hi : f.Meets seen before p i next)
    (hcomment : afterComment = true → ((seen ++ [i]).find? f.endsLine).isSome) :
    Reached f (seen ++ [i]) before (a.alignAfter p i next afterComment) := by
  obtain ⟨_, hretailed, htail⟩ :=
    Alignment.alignAfter_spec (p := p) (h.shape.size_eq ▸ hi.lt) next afterComment
  have hcolumn := h.column_alignAfter afterComment hi
  have hline := h.line_alignAfter afterComment hi
  have hbefore := h.tail_alignAfter_of_none hi hcomment
  have hends := h.tail_alignAfter_of_endsLine afterComment hi
  generalize a.alignAfter p i next afterComment = b at hretailed htail hcolumn hline hbefore hends
  have hother {j : NodeId} (hj : j ≠ i) : b.forest.tail j = a.forest.tail j :=
    congrArg Node.tail (hretailed.frame j fun hm => hj (List.mem_singleton.mp hm))
  refine ⟨h.shape.trans hretailed.sameShape, fun j => (hretailed.text_eq j).trans (h.text_eq j),
    fun j => ?_, fun j hj => ?_, hcolumn, fun hnone => ?_, hline ▸ h.oneLine,
    fun n hn j hj hj' hdirective => ?_⟩
  · by_cases hji : j = i
    · rw [hji, htail, Margin.squeeze_tailAfter, h.squeeze_eq]
    · rw [hother hji, h.squeeze_eq]
  · by_cases hji : j = i
    · rw [hji] at hj ⊢
      exact (hbefore (hj.resolve_left (by simp))).2
    · rw [hother hji]
      refine h.untouched j
        (hj.imp (fun hm hseen => hm (List.mem_append_left _ hseen)) fun hnone => ?_)
      exact (hbefore hnone).1
  · rw [hline, h.line_eq (hbefore hnone).1]
  · rcases List.mem_append.mp hj with hseen | hj
    · -- The column was found before.
      have hsome : (seen.find? f.endsLine).isSome := List.find?_isSome.mpr ⟨j, hseen, hj'⟩
      have hji : j ≠ i := fun e => hi.new (e ▸ hseen)
      rw [hcolumn, List.find?_append, Option.or_of_isSome hsome, ← h.column_eq] at hn
      rw [hother hji]
      exact h.aligned n hn j hseen hj' hdirective
    · obtain rfl := List.mem_singleton.mp hj
      exact hends hj' hdirective hn

end Reached

/-! ## The whole statement -/

namespace Forest

theorem anchorClass_child_ofElement {e : Element} {p c : NodeId}
    (hc : c ∈ (ofElement e).children p) :
    (ofElement e).anchorClass c = ((ofElement e).anchorClass p).within ((ofElement e).kind c) := by
  have hclass := (indexable_ofElement e).anchorClass_child (holds_ofElement e) (e.id_shapeFrom 0) p
    (mem_preorder_of_lt (lt_size_of_mem_children hc)) c
    ((SameShape.indexed (ofElement e)).children_eq p ▸ hc)
  rwa [(SameShape.indexed _).anchorClass_eq, (SameShape.indexed _).anchorClass_eq,
    (SameShape.indexed _).kind_eq] at hclass

/-- The shapes `cs` are the last children of `p`, and none of their nodes has been met. -/
structure Awaits (f : Forest) (seen : List NodeId) (before : List TextSlot) (p : NodeId)
    (cs : List Shape) :
    Prop where
  children : ∃ pre, f.children p = pre ++ cs.map Shape.id
  carries : ∀ s ∈ cs, f.Carries s
  breaks : ∀ j ∈ cs.flatMap Shape.preorder, f.BreaksAtMarker j
  nodup : (seen ++ cs.flatMap Shape.preorder).Nodup
  slots_eq : ∀ q ∈ Shape.slotsBeforeIn before cs, f.slotsBefore q.1 = q.2

namespace Awaits

variable {f : Forest} {e : Element} {seen : List NodeId} {before : List TextSlot} {p i : NodeId}
  {ds rest : List Shape}

theorem meets (h : (ofElement e).Awaits seen before p (.node i ds :: rest)) :
    (ofElement e).Meets seen before p i (rest.head?.map fun r => (ofElement e).kind r.id) := by
  obtain ⟨pre, hchildren⟩ := h.children
  have hmem : i ∈ (ofElement e).children p :=
    hchildren ▸ List.mem_append_right pre List.mem_cons_self
  refine ⟨(h.carries _ List.mem_cons_self).id_lt, fun hi => ?_,
    anchorClass_child_ofElement hmem, ?_, h.slots_eq (i, before) ?_⟩
  · exact (List.nodup_append'.mp h.nodup).2.2 hi (by simp)
  · have hnext : (ofElement e).nextSibling? i = (rest.map Shape.id).head? :=
      nextSibling?_of_followedBy ⟨p, pre, rest.map Shape.id, hchildren, rfl⟩
    rw [hnext, List.head?_map, Option.map_map]
    rfl
  · rw [Shape.slotsBeforeIn, Shape.slotsBefore]
    exact List.mem_cons_self

theorem breaks_head (h : f.Awaits seen before p (.node i ds :: rest)) : f.BreaksAtMarker i :=
  h.breaks i (by simp)

/-- Below the first of the shapes. -/
theorem below (h : f.Awaits seen before p (.node i ds :: rest)) :
    f.Awaits (seen ++ [i]) (before ++ [.text i]) i ds := by
  obtain ⟨_, hchildren, hcarries⟩ := carries_node.mp (h.carries _ List.mem_cons_self)
  refine ⟨⟨[], hchildren⟩, hcarries, fun j hj => h.breaks j ?_, ?_, fun q hq => h.slots_eq q ?_⟩
  · rw [List.flatMap_cons, Shape.preorder_node]
    exact List.mem_append_left _ (List.mem_cons_of_mem i hj)
  · have hsplit : seen ++ (Shape.node i ds :: rest).flatMap Shape.preorder =
        (seen ++ [i] ++ ds.flatMap Shape.preorder) ++ rest.flatMap Shape.preorder := by simp
    have hnodup := h.nodup
    rw [hsplit] at hnodup
    exact (List.nodup_append'.mp hnodup).1
  · rw [Shape.slotsBeforeIn, Shape.slotsBefore]
    exact List.mem_append_left _ (List.mem_cons_of_mem _ hq)

/-- Behind the first of the shapes. -/
theorem behind (h : f.Awaits seen before p (.node i ds :: rest)) :
    f.Awaits (seen ++ [i] ++ ds.flatMap Shape.preorder)
      (before ++ [.text i] ++ Shape.slotsAll ds ++ [.tail i]) p rest := by
  obtain ⟨pre, hchildren⟩ := h.children
  have hslots : before ++ [.text i] ++ Shape.slotsAll ds ++ [.tail i] =
      before ++ (Shape.node i ds).slots := by
    simp [Shape.slots]
  refine ⟨⟨pre ++ [i], by simp [hchildren]⟩, fun s hs => h.carries s (List.mem_cons_of_mem _ hs),
    fun j hj => h.breaks j ?_, ?_, fun q hq => h.slots_eq q ?_⟩
  · rw [List.flatMap_cons]
    exact List.mem_append_right _ hj
  · have hnodup := h.nodup
    simpa using hnodup
  · rw [hslots] at hq
    rw [Shape.slotsBeforeIn]
    exact List.mem_append_right _ hq

end Awaits

end Forest

open Forest

/-- Below the shape the walk meets all nodes and reads all slots. -/
def ReachesBelow (f : Forest) (s : Shape) : Prop :=
  ∀ seen before a, f.Awaits seen before s.id s.children → Reached f seen before a →
    Reached f (seen ++ s.children.flatMap Shape.preorder) (before ++ Shape.slotsAll s.children)
      (Alignment.alignBelow s a)

theorem Reached.alignFrom {e : Element} {cs : List Shape}
    (ih : ∀ s ∈ cs, ReachesBelow (ofElement e) s)
    {seen : List NodeId} {before : List TextSlot} {p : NodeId} {afterComment : Bool} {a : Alignment}
    (hcs : (ofElement e).Awaits seen before p cs)
    (hcomment : afterComment = true → (seen.find? (ofElement e).endsLine).isSome)
    (h : Reached (ofElement e) seen before a) :
    Reached (ofElement e) (seen ++ cs.flatMap Shape.preorder) (before ++ Shape.slotsAll cs)
      (Alignment.alignFrom p afterComment cs a) := by
  induction cs generalizing seen before afterComment a with
  | nil =>
    rw [List.flatMap_nil, List.append_nil, Shape.slotsAll, List.append_nil, Alignment.alignFrom]
    exact h
  | cons s rest ihrest =>
    obtain ⟨i, ds⟩ := s
    obtain ⟨hs, hrest⟩ := List.forall_mem_cons.mp ih
    have hi := hcs.meets
    have hbreaks := hcs.breaks_head
    rw [Alignment.alignFrom, Shape.id_node]
    simp only [h.shape.kind_eq, h.isEndMarker_eq hi]
    generalize hnext : (rest.head?.map fun r => (ofElement e).kind r.id) = next at hi
    generalize hafter :
      (afterComment || ((ofElement e).endsLine i && next == some .comment)) = afterComment'
    -- A comment can only come after a marker that ends a line.
    have hcomment' : afterComment' = true →
        ((seen ++ [i]).find? (ofElement e).endsLine).isSome := by
      intro hc
      rw [← hafter, Bool.or_eq_true, Bool.and_eq_true] at hc
      rw [List.find?_isSome]
      rcases hc with hc | ⟨hends, _⟩
      · obtain ⟨j, hj, hends⟩ := List.find?_isSome.mp (hcomment hc)
        exact ⟨j, List.mem_append_left _ hj, hends⟩
      · exact ⟨i, List.mem_append_right _ (List.mem_singleton_self i), hends⟩
    have hvisited : Reached (ofElement e) (seen ++ [i] ++ ds.flatMap Shape.preorder)
        (before ++ [.text i] ++ Shape.slotsAll ds ++ [.tail i])
        ((Alignment.alignBelow (.node i ds)
          ((a.alignAfter p i next afterComment').readText i)).readTail i) :=
      (hs _ _ _ hcs.below ((h.alignAfter hi hcomment').readText hbreaks.1)).readTail hbreaks.2
    have hcommentNext :
        (afterComment' &&
          ((ofElement e).kind i == .comment || (ofElement e).kind i == .continuation)) = true →
          ((seen ++ [i] ++ ds.flatMap Shape.preorder).find? (ofElement e).endsLine).isSome := by
      intro hc
      rw [Bool.and_eq_true] at hc
      rw [List.find?_append, Option.isSome_or, hcomment' hc.1, Bool.true_or]
    have hlater := ihrest hrest hcs.behind hcommentNext hvisited
    simpa [Shape.slotsAll, Shape.slots, List.append_assoc] using hlater

theorem reachesBelow {e : Element} (s : Shape) : ReachesBelow (ofElement e) s := by
  induction s using Shape.induct with
  | h i cs ih =>
    intro seen before a hcs h
    rw [Alignment.alignBelow]
    exact h.alignFrom ih hcs fun hcomment => absurd hcomment Bool.false_ne_true

/-- Below the first child of the root, each marker that ends a line starts the next one in `g` at
the column of the first marker that does, unless a directive follows it; nothing but blanks changes
in its tail. -/
def Forest.SharesColumn (f g : Forest) : Prop :=
  ∀ first, (f.descendants 1).find? f.endsLine = some first → ∀ i ∈ f.descendants 1,
    f.endsLine i = true →
    (f.nextSibling? i).any (f.kind · == .directive) = false →
      Text.LinesStartAt (f.markerColumn first) (g.tail i).toList ∧
        squeeze (g.tail i).toList = squeeze (f.tail i).toList

theorem Reached.sharesColumn {f : Forest} {before : List TextSlot} {a : Alignment}
    (h : Reached f (f.descendants 1) before a) : f.SharesColumn a.forest := by
  intro first hfirst i hi hends hdirective
  have hcolumn : a.column = some (f.markerColumn first) := by
    rw [h.column_eq, hfirst, Option.map_some]
  have htail := h.aligned _ hcolumn i hi hends hdirective
  refine ⟨?_, h.squeeze_eq i⟩
  rw [htail, Margin.startAt, String.toList_ofList]
  exact Text.linesStartAt_everywhere _ _

/-- The walk has read the text of node `i`, the first child of a root without text. -/
theorem reached_first {f : Forest} {i : NodeId} (hroot : f.text root = "")
    (hends : f.endsLine i = false) (htext : hasNewline (f.text i).toList = false) :
    Reached f [i] [.text root, .text i] (Alignment.readText { forest := f.indexed } i) := by
  have hnode (j : NodeId) : f.indexed.node j = f.node j := node_indexed f j
  have hshown : [TextSlot.text root].flatMap f.shown = [] := by
    rw [List.flatMap_singleton, shown, hroot]
    exact ite_self _
  have hnone : [i].find? f.endsLine = none := by simp [hends]
  have hstart : Reached f [i] [.text root] { forest := f.indexed } := by
    refine ⟨.indexed f, fun j => congrArg Node.text (hnode j), fun j => ?_,
      fun j _ => congrArg Node.tail (hnode j), ?_, fun _ => ?_, rfl, nofun⟩
    · rw [tail, hnode, tail]
    · rw [hnone]
      rfl
    · rw [hshown]
      rfl
  exact hstart.readText htext

/-- The walk through a root with one child, in which lines end only after markers, comments and
directives. -/
theorem sharesColumn_alignBelow {e : Element} {ds : List Shape}
    (hshape : e.shapeFrom 0 = .node root [.node 1 ds])
    (hroot : (ofElement e).text root = "") (hkind : ((ofElement e).kind 1).isStatement = true)
    (htext : ∀ i ∈ (ofElement e).descendants 1, hasNewline ((ofElement e).text i).toList = false)
    (htail : ∀ i ∈ (ofElement e).descendants 1,
      i ≠ 1 → hasNewline ((ofElement e).tail i).toList = true →
      (ofElement e).kind i ∈ [.continuation, .comment, .directive]) :
    (ofElement e).SharesColumn
      (Alignment.alignBelow (.node root [.node 1 ds])
        { forest := (ofElement e).indexed }).forest := by
  have hheld : (ofElement e).Holds (.node root [.node 1 ds]) := hshape ▸ holds_ofElement e
  have hchild := hheld.child List.mem_cons_self
  have hdescendants : (ofElement e).descendants 1 = [1] ++ ds.flatMap Shape.preorder := by
    have hone := hchild.shape_eq
    rw [Shape.id_node] at hone
    rw [descendants, hone, Shape.preorder_node]
    rfl
  have hstatement := Kind.endsStatement_of_isStatement hkind
  have hends : (ofElement e).endsLine 1 = false := by
    rw [endsLine, beq_eq_false_iff_ne.mpr (Margin.endsStatement_iff.mp hstatement).1,
      Bool.false_and]
  have hawaits : (ofElement e).Awaits [1] [.text root, .text 1] 1 ds := by
    obtain ⟨_, hchildren, hcarries⟩ := carries_node.mp hchild.carries
    have hbelow {j : NodeId} (hj : j ∈ ds.flatMap Shape.preorder) :
        j ∈ (ofElement e).descendants 1 :=
      hdescendants ▸ List.mem_append_right [1] hj
    have hnodup : (1 :: ds.flatMap Shape.preorder).Nodup := Shape.preorder_node 1 ds ▸ hchild.nodup
    refine ⟨⟨[], hchildren⟩, hcarries, fun j hj => ⟨htext j (hbelow hj), htail j (hbelow hj) ?_⟩,
      hnodup, fun q hq => slotsBefore_eq hheld.nodup ((shape_ofElement e).trans hshape) ?_⟩
    · rintro rfl
      exact (List.nodup_cons.mp hnodup).1 hj
    · rw [Shape.slotsBefore, Shape.slotsBeforeIn, Shape.slotsBefore]
      exact List.mem_cons_of_mem _ (List.mem_append_left _ (List.mem_cons_of_mem _ hq))
  have hfirst :=
    reached_first hroot hends (htext 1 (hdescendants ▸ List.mem_append_left _ List.mem_cons_self))
  have hreached := reachesBelow (.node 1 ds) _ _ _ hawaits hfirst
  rw [Shape.children, ← hdescendants] at hreached
  have hindexed : (ofElement e).indexed.kind 1 = (ofElement e).kind 1 :=
    (SameShape.indexed _).kind_eq 1
  rw [Alignment.alignBelow_single (by rw [Shape.id_node, hindexed]; exact hstatement),
    Alignment.forest_readTail]
  exact hreached.sharesColumn

/-- All continuation lines of a statement start at the column that is found at the first of its
markers that ends a line, if lines end only after markers, comments and directives. -/
theorem tail_updateContinuation_alignOnly {tag tail : String} {s : Element}
    (hs : s.kind.isStatement = true)
    (htext : ∀ i ∈ (ofElement ⟨tag, "", tail, [s]⟩).descendants 1,
      hasNewline ((ofElement ⟨tag, "", tail, [s]⟩).text i).toList = false)
    (htail : ∀ i ∈ (ofElement ⟨tag, "", tail, [s]⟩).descendants 1, i ≠ 1 →
      hasNewline ((ofElement ⟨tag, "", tail, [s]⟩).tail i).toList = true →
        (ofElement ⟨tag, "", tail, [s]⟩).kind i ∈ [.continuation, .comment, .directive]) :
    ∃ m, updateContinuation .alignOnly root (ofElement ⟨tag, "", tail, [s]⟩) = .ok m ∧
      (ofElement ⟨tag, "", tail, [s]⟩).SharesColumn m.forest := by
  obtain ⟨i, ds, ht⟩ : ∃ i ds, s.shapeFrom 1 = .node i ds := by
    cases s.shapeFrom 1 with
    | node i ds => exact ⟨i, ds, rfl⟩
  obtain rfl : 1 = i := by
    have hid := s.id_shapeFrom 1
    rw [ht] at hid
    exact hid.symm
  have hshape : Element.shapeFrom 0 ⟨tag, "", tail, [s]⟩ = .node root [.node 1 ds] := by
    rw [Element.shapeFrom, Element.shapesFrom, Element.shapesFrom, Nat.zero_add, ht]
    rfl
  have helement := elementOf_ofElement ⟨tag, "", tail, [s]⟩
  simp only [hshape, elementOf_node, List.map_cons, List.map_nil, Element.mk.injEq, List.cons.injEq,
    and_true] at helement
  obtain ⟨_, hroot, _, hchild⟩ := helement
  have hkind : (ofElement ⟨tag, "", tail, [s]⟩).kind 1 = s.kind := by
    have hkind := kind_elementOf (ofElement ⟨tag, "", tail, [s]⟩) (.node 1 ds)
    rw [elementOf_node, hchild] at hkind
    exact hkind.symm
  refine ⟨_, rfl, ?_⟩
  rw [MarkerOptions.apply, MarkerDraft.revise_eq_self rfl fun _ => rfl]
  have hwalk := sharesColumn_alignBelow hshape hroot (hkind ▸ hs) htext htail
  rw [← hshape, ← shape_ofElement] at hwalk
  exact hwalk

/-- A call whose arguments go over lines of their own, with comments between them. -/
def continuedArguments : Element where
  tag := "call-stmt"
  text := "CALL SOLVE(A, "
  tail := "\n"
  children :=
    [{ tag := "cnt", text := "&", tail := "\n" },
     { tag := "op-E"
       children :=
         [{ tag := "named-E", text := "B", tail := " + " },
          { tag := "cnt", text := "&", tail := "\n  " },
          { tag := "C", text := "! next", tail := "\n" },
          { tag := "parens-E"
            text := "(C + "
            tail := ")"
            children :=
              [{ tag := "cnt", text := "&", tail := " " },
               { tag := "C", text := "! more", tail := "\n" },
               { tag := "cnt", text := "&", tail := "\n D" }] }] }]

theorem tail_updateContinuation_alignOnly_continuedArguments :
    continuedArguments.kind.isStatement = true ∧
      (∀ i ∈ (ofElement ⟨"file", "", "", [continuedArguments]⟩).descendants 1,
        hasNewline ((ofElement ⟨"file", "", "", [continuedArguments]⟩).text i).toList = false) ∧
      (∀ i ∈ (ofElement ⟨"file", "", "", [continuedArguments]⟩).descendants 1, i ≠ 1 →
        hasNewline ((ofElement ⟨"file", "", "", [continuedArguments]⟩).tail i).toList = true →
          (ofElement ⟨"file", "", "", [continuedArguments]⟩).kind i ∈
            [.continuation, .comment, .directive]) ∧
      ((ofElement ⟨"file", "", "", [continuedArguments]⟩).descendants 1).filter
        (ofElement ⟨"file", "", "", [continuedArguments]⟩).endsLine = [2, 5, 8, 10] ∧
      (ofElement ⟨"file", "", "", [continuedArguments]⟩).markerColumn 2 = 11 ∧
      ∃ m, updateContinuation .alignOnly root
          (ofElement ⟨"file", "", "", [continuedArguments]⟩) = .ok m ∧
        (ofElement ⟨"file", "", "", [continuedArguments]⟩).SharesColumn m.forest :=
  ⟨by decide, by decide +kernel, by decide +kernel, by decide +kernel, by decide +kernel,
    tail_updateContinuation_alignOnly (by decide) (by decide +kernel) (by decide +kernel)⟩

end FortranLayout
