import FortranLayout.Proofs.Alignment.Refinement
import FortranLayout.Proofs.Markers.Update

/-!
# Alignment of a statement after others

The walk brings to a statement the text of the current line and, if a statement is still being
continued, its column. A statement is aligned as it would be alone, whatever statement it is,
exactly if the walk brings neither (`alignedAlone_iff`). It brings neither after a statement that
ends its own line, with comments and directives of their own lines after it. It brings a column
where the line of a continued statement is ended by the comment after it.
-/

namespace FortranLayout

open Forest Element

variable {c : AnchorClass} {m : Margin} {s : Element}

/-- Options that align and do nothing else. -/
def MarkerOptions.alignOnly : MarkerOptions where
  align := true
  removeAll := false
  addBegin := false
  removeBegin := false

/-! ## Elements that are not aligned themselves -/

/-- Whether a newline after an element of this kind ends the statement. -/
def Kind.endsStatement (k : Kind) : Bool := k != .continuation && !k.isCommentLike

theorem Kind.endsStatement_of_isStatement {k : Kind} (h : k.isStatement = true) :
    k.endsStatement = true := by
  cases k <;> first | rfl | cases h

namespace Margin

theorem isEnd_of_ne {k : Kind} (hk : k ≠ .continuation) (t : String) (next : Option Kind) :
    isEnd k t next = false := by
  rw [isEnd, beq_eq_false_iff_ne.mpr hk, Bool.false_and]

theorem found_of_ne {k : Kind} (hk : k ≠ .continuation) (m : Margin) (c : AnchorClass) (t : String)
    (next : Option Kind) : m.found c k t next = m := by
  rw [found, isEnd_of_ne hk]
  rfl

theorem endsStatement_iff {k : Kind} :
    k.endsStatement = true ↔ k ≠ .continuation ∧ k ≠ .comment ∧ k ≠ .directive := by
  cases k <;> simp [Kind.endsStatement, Kind.isCommentLike]

theorem tailAfter_of_endsStatement {k : Kind} (hk : k.endsStatement = true) (m : Margin)
    (c : AnchorClass) (t : String) (next : Option Kind) (afterComment : Bool) :
    m.tailAfter c k t next afterComment = t := by
  obtain ⟨h₁, h₂, h₃⟩ := endsStatement_iff.mp hk
  rw [tailAfter, continues, isEnd_of_ne h₁, beq_eq_false_iff_ne.mpr h₂, beq_eq_false_iff_ne.mpr h₃]
  simp

/-- What an element makes of the next one is the same for all that end a statement. -/
theorem next_eq {k k' : Kind} (hk : k.endsStatement = true) (hk' : k'.endsStatement = true) :
    (some k == some Kind.comment) = (some k' == some Kind.comment) ∧
      (some k == some Kind.directive) = (some k' == some Kind.directive) ∧
      (k == .continuation) = (k' == .continuation) := by
  obtain ⟨h₁, h₂, h₃⟩ := endsStatement_iff.mp hk
  obtain ⟨h₁', h₂', h₃'⟩ := endsStatement_iff.mp hk'
  simp [h₁, h₂, h₃, h₁', h₂', h₃']

theorem isEnd_next {k k' : Kind} (hk : k.endsStatement = true) (hk' : k'.endsStatement = true)
    (k₀ : Kind) (t : String) : isEnd k₀ t (some k) = isEnd k₀ t (some k') := by
  rw [isEnd, isEnd, (next_eq hk hk').1]

theorem found_next {k k' : Kind} (hk : k.endsStatement = true) (hk' : k'.endsStatement = true)
    (m : Margin) (c : AnchorClass) (k₀ : Kind) (t : String) :
    m.found c k₀ t (some k) = m.found c k₀ t (some k') := by
  rw [found, found, isEnd_next hk hk', findColumn, findColumn, Option.all_some, Option.all_some,
    (next_eq hk hk').2.2]

theorem tailAfter_next {k k' : Kind} (hk : k.endsStatement = true) (hk' : k'.endsStatement = true)
    (m : Margin) (c : AnchorClass) (k₀ : Kind) (t : String) (afterComment : Bool) :
    m.tailAfter c k₀ t (some k) afterComment = m.tailAfter c k₀ t (some k') afterComment := by
  rw [tailAfter, tailAfter, continues, continues, isEnd_next hk hk', found_next hk hk', bne, bne,
    (next_eq hk hk').2.1]

end Margin

namespace Element

/-! ## Walking through a list in parts -/

theorem alignAll_append (c : AnchorClass) (afterComment : Bool) (follow : Option Kind) (m : Margin)
    (es fs : List Element) :
    ∃ afterComment',
      alignAll c afterComment follow m (es ++ fs) =
        ((alignAll c afterComment ((fs.head?.map kind).or follow) m es).1 ++
          (alignAll c afterComment' follow
            (alignAll c afterComment ((fs.head?.map kind).or follow) m es).2 fs).1,
        (alignAll c afterComment' follow
          (alignAll c afterComment ((fs.head?.map kind).or follow) m es).2 fs).2) := by
  induction es generalizing afterComment m with
  | nil => exact ⟨afterComment, rfl⟩
  | cons e es ih =>
    have hnext : ((es ++ fs).head?.map kind).or follow =
        (es.head?.map kind).or ((fs.head?.map kind).or follow) := by
      cases es <;> rfl
    rw [List.cons_append, alignAll, alignAll, hnext]
    obtain ⟨afterComment', h⟩ := ih _ _
    refine ⟨afterComment', ?_⟩
    rw [h]
    rfl

/-- An element that ends a statement keeps its own tail. -/
theorem alignAll_cons_of_endsStatement {e : Element} (he : e.kind.endsStatement = true)
    (c : AnchorClass) (afterComment : Bool) (follow : Option Kind) (m : Margin)
    (es : List Element) :
    alignAll c afterComment follow m (e :: es) =
      ({ e with children := (e.alignBelow c (m.readText e.kind e.text)).1 } ::
        (alignAll c false follow
          ((e.alignBelow c (m.readText e.kind e.text)).2.readTail e.kind e.tail) es).1,
      (alignAll c false follow
        ((e.alignBelow c (m.readText e.kind e.text)).2.readTail e.kind e.tail) es).2) := by
  obtain ⟨h₁, h₂, _⟩ := Margin.endsStatement_iff.mp he
  rw [alignAll]
  simp only [Margin.tailAfter_of_endsStatement he, Margin.found_of_ne h₁,
    beq_eq_false_iff_ne.mpr h₁, beq_eq_false_iff_ne.mpr h₂, Bool.or_false, Bool.and_false]

/-- Which element follows makes no difference among those that end a statement. -/
theorem alignAll_follow {k k' : Kind} (hk : k.endsStatement = true) (hk' : k'.endsStatement = true)
    (c : AnchorClass) (afterComment : Bool) (m : Margin) (es : List Element) :
    alignAll c afterComment (some k) m es = alignAll c afterComment (some k') m es := by
  induction es generalizing afterComment m with
  | nil => rfl
  | cons e es ih =>
    rw [alignAll, alignAll]
    cases es with
    | nil =>
      simp only [List.head?_nil, Option.map_none, Option.none_or, Margin.isEnd_next hk hk',
        Margin.found_next hk hk', Margin.tailAfter_next hk hk', (Margin.next_eq hk hk').1]
      rfl
    | cons d ds =>
      rw [ih]
      rfl

/-! ## What a line that has ended leaves -/

/-- Whether the tail of an element ends with a newline. -/
def endsWithNewline (e : Element) : Bool := e.tail.toList.getLast? == some '\n'

theorem readTail_of_endsWithNewline {e : Element} (he : e.endsWithNewline = true) (m : Margin)
    (k : Kind) :
    m.readTail k e.tail =
      { line := [], column := if k.endsStatement then none else m.column } := by
  rw [endsWithNewline, beq_iff_eq, List.getLast?_eq_some_iff] at he
  obtain ⟨t, ht⟩ := he
  rw [Margin.readTail, ht, ← List.append_assoc, Text.afterLastNewline?_append]
  cases k <;> rfl

/-- A comment or a directive on a line of its own. -/
structure OwnLine (e : Element) : Prop where
  commentLike : e.isCommentLike = true
  leaf : e.children = []
  ended : e.endsWithNewline = true

theorem alignAll_ownLines (c : AnchorClass) (follow : Option Kind) {cs : List Element}
    (hcs : ∀ e ∈ cs, e.OwnLine) : (alignAll c false follow {} cs).2 = {} := by
  induction cs with
  | nil => rfl
  | cons e cs ih =>
    obtain ⟨hlike, hleaf, hended⟩ := hcs e List.mem_cons_self
    have hk : e.kind ≠ .continuation := by
      intro h
      rw [isCommentLike, h] at hlike
      cases hlike
    have htail : ∀ next, ({} : Margin).tailAfter c e.kind e.tail next false = e.tail := by
      intro next
      rw [Margin.tailAfter, Margin.continues, Margin.isEnd_of_ne hk]
      rfl
    have hbelow : ∀ m : Margin, (e.alignBelow c m).2 = m := by
      intro m
      obtain ⟨tag, text, tail, cs⟩ := e
      subst hleaf
      rfl
    have hcolumn : (({} : Margin).readText e.kind e.text).column = none := by
      unfold Margin.readText
      split <;> rfl
    rw [alignAll]
    simp only [Margin.isEnd_of_ne hk, Margin.found_of_ne hk, Bool.false_and, Bool.or_false, htail,
      hbelow, readTail_of_endsWithNewline hended, hcolumn, ite_self]
    exact ih fun d hd => hcs d (List.mem_cons_of_mem _ hd)

/-- The elements end the line of a statement, or there are none. -/
inductive LineEnded : List Element → Prop
  | nil : LineEnded []
  | lines (es : List Element) (e : Element) (cs : List Element)
    (statement : e.kind.endsStatement = true) (ended : e.endsWithNewline = true)
    (own : ∀ d ∈ cs, d.OwnLine) : LineEnded (es ++ e :: cs)

/-- The margin that a statement finds after the elements `pre` below a root with the given tag. -/
def marginAfter (tag : String) (pre : List Element) : Margin :=
  (alignAll (AnchorClass.generic.within (Kind.ofTag tag)) false (some .otherStmt) {} pre).2

theorem marginAfter_of_lineEnded (tag : String) {pre : List Element} (h : LineEnded pre) :
    marginAfter tag pre = {} := by
  cases h with
  | nil => rfl
  | lines es e cs statement ended own =>
    rw [marginAfter]
    obtain ⟨afterComment, happend⟩ :=
      alignAll_append (AnchorClass.generic.within (Kind.ofTag tag)) false
      (some .otherStmt) {} es (e :: cs)
    rw [happend, alignAll_cons_of_endsStatement statement, readTail_of_endsWithNewline ended,
      if_pos statement]
    exact alignAll_ownLines _ _ own

/-! ## Telling margins apart -/

/-- A statement over two lines that shows in its only tail where the walk starts the second line. -/
def probe (text : String) : Element where
  tag := "if-stmt"
  text := text
  children := [marker ['\n']]

theorem startAt_newline (n : Nat) :
    Margin.startAt (String.ofList ['\n']) n = String.ofList ('\n' :: List.replicate n ' ') := by
  have hfold : Text.foldLetter '\n' = '\n' := by decide
  simp [Margin.startAt, Gaps.after, Text.Pattern.everywhere, Text.Pattern.everywhereWithin,
    Text.Pattern.read, Text.Piece.read, hfold, Text.blanks]

/-- Where the walk starts the second line of a probe. -/
def probeColumn (m : Margin) (text : String) : Nat :=
  m.column.getD (AnchorClass.ifThen.column (m.line ++ text.toList) true)

theorem alignAll_marker (c : AnchorClass) (m : Margin) :
    (alignAll c false none m [marker ['\n']]).1 =
      [marker ('\n' :: List.replicate (m.column.getD (c.column m.line true)) ' ')] := by
  have hkind : (marker ['\n']).kind = .continuation := rfl
  have hend : ∀ next, Margin.isEnd .continuation (marker ['\n']).tail next = true := fun _ => rfl
  have hcolumn : (m.found c .continuation (marker ['\n']).tail none).column.getD
      AnchorClass.standardColumn = m.column.getD (c.column m.line true) := by
    obtain ⟨line, column⟩ := m
    rw [Margin.found, hend, if_pos rfl]
    cases column <;> rfl
  have hbelow : ∀ m' : Margin, ((marker ['\n']).alignBelow c m').1 = [] := fun _ => rfl
  have htail : m.tailAfter c .continuation (marker ['\n']).tail none false =
      String.ofList ('\n' :: List.replicate (m.column.getD (c.column m.line true)) ' ') := by
    have hdirective : (none != some Kind.directive) = true := rfl
    rw [Margin.tailAfter, Margin.continues, hend, Bool.true_or, Bool.true_or, Bool.true_and,
      if_pos hdirective, hcolumn]
    exact startAt_newline _
  have hnext : (none == some Kind.comment) = false := rfl
  rw [alignAll, hkind]
  simp only [List.head?_nil, Option.map_none, Option.none_or, hnext, Bool.and_false,
    Bool.or_false, htail, hbelow]
  rfl

theorem alignBelow_probe (c : AnchorClass) (m : Margin) (text : String) :
    ((probe text).alignBelow c (m.readText .ifStmt text)).1 =
      [marker ('\n' :: List.replicate (probeColumn m text) ' ')] := by
  have hclass : c.within (Kind.ofTag "if-stmt") = .ifThen := rfl
  have hread : m.readText .ifStmt text = { m with line := m.line ++ text.toList } := rfl
  rw [probe, alignBelow_mk, hclass, alignAll_marker, hread]
  rfl

theorem endOfFirst?_parenthesis_cons (x : Char) (line : List Char) :
    Text.Pattern.endOfFirst? [.char '('] (x :: line) =
      if Text.foldLetter x = '(' then some 1
      else (Text.Pattern.endOfFirst? [.char '('] line).map (· + 1) := by
  rw [Text.Pattern.endOfFirst?]
  by_cases h : Text.foldLetter x = '('
  · simp [Text.Pattern.read, Text.Piece.read, h]
  · simp [Text.Pattern.read, Text.Piece.read, h]

/-- A line that ends with an opening parenthesis has one. -/
theorem endOfFirst?_parenthesis_concat (line : List Char) :
    ∃ n, Text.Pattern.endOfFirst? [.char '('] (line ++ ['(']) = some (n + 1) := by
  induction line with
  | nil => exact ⟨0, rfl⟩
  | cons x line ih =>
    obtain ⟨n, hn⟩ := ih
    rw [List.cons_append, endOfFirst?_parenthesis_cons, hn]
    split
    · exact ⟨0, rfl⟩
    · exact ⟨n + 1, rfl⟩

theorem column_of_parenthesis {line : List Char} {n : Nat}
    (h : Text.Pattern.endOfFirst? [.char '('] line = some (n + 1)) :
    AnchorClass.ifThen.column line true = n := by
  have hanchors : AnchorClass.ifThen.anchors = [.char '('] :: AnchorClass.ifThen.anchors.tail := rfl
  rw [AnchorClass.column, hanchors, List.findSome?_cons, h]
  rfl

/-- Two probes, without and with a parenthesis, tell every margin from the clear one: the first line
of the one has no anchor, and the first line of the other has its anchor at the very beginning. -/
theorem margin_eq_of_probes (h₁ : probeColumn m "" = probeColumn {} "")
    (h₂ : probeColumn m "(" = probeColumn {} "(") : m = {} := by
  have hstandard : probeColumn {} "" = 4 := by decide
  have hfirst : probeColumn {} "(" = 0 := by decide
  rw [hstandard] at h₁
  rw [hfirst] at h₂
  obtain ⟨line, column⟩ := m
  cases column with
  | some n =>
    have hn₁ : n = 4 := h₁
    have hn₂ : n = 0 := h₂
    omega
  | none =>
    cases line with
    | nil => rfl
    | cons x line =>
      exfalso
      have h₁' : AnchorClass.ifThen.column (x :: line) true = 4 := by
        simpa [probeColumn] using h₁
      have h₂' : AnchorClass.ifThen.column (x :: (line ++ ['('])) true = 0 := h₂
      by_cases hx : Text.foldLetter x = '('
      · have hzero : AnchorClass.ifThen.column (x :: line) true = 0 := by
          apply column_of_parenthesis
          rw [endOfFirst?_parenthesis_cons, if_pos hx]
        omega
      · obtain ⟨n, hn⟩ := endOfFirst?_parenthesis_concat line
        have hpos : AnchorClass.ifThen.column (x :: (line ++ ['('])) true = n + 1 := by
          apply column_of_parenthesis
          rw [endOfFirst?_parenthesis_cons, if_neg hx, hn]
          rfl
        omega

end Element

/-! ## Statements aligned as if alone -/

/-- The continued lines of `s`, the last element below a root, are aligned as on the tree that has
nothing else below its root. -/
def AlignedAlone (tag text tail : String) (pre : List Element) (s : Element) : Prop :=
  ∃ m m' s', updateContinuation .alignOnly root (ofElement ⟨tag, text, tail, pre ++ [s]⟩) = .ok m ∧
    updateContinuation .alignOnly root (ofElement ⟨tag, "", tail, [s]⟩) = .ok m' ∧
    m.forest.toElement.children.getLast? = some s' ∧ m'.forest.toElement.children = [s']

theorem updateContinuation_alignOnly (e : Element) :
    ∃ m, updateContinuation .alignOnly root (ofElement e) = .ok m ∧
      m.forest.toElement = e.aligned := by
  refine ⟨_, rfl, ?_⟩
  rw [MarkerOptions.apply, MarkerDraft.revise_eq_self rfl fun _ => rfl]
  obtain ⟨_, haligned⟩ := Alignment.retailed_alignBelow (indexable_ofElement e) (holds_ofElement e)
    (e.id_shapeFrom 0)
  rw [toElement_ofElement] at haligned
  exact haligned

/-- What alignment makes of the last element below a root, if it is a statement. -/
theorem children_aligned_concat (hs : s.kind.isStatement = true) (tag text tail : String)
    (pre : List Element) :
    (aligned ⟨tag, text, tail, pre ++ [s]⟩).children.getLast? =
      some { s with
        children := (s.alignBelow (AnchorClass.generic.within (Kind.ofTag tag))
          ((marginAfter tag pre).readText s.kind s.text)).1 } := by
  have hends := Kind.endsStatement_of_isStatement hs
  obtain ⟨afterComment, happend⟩ :=
    alignAll_append (AnchorClass.generic.within (Kind.ofTag tag)) false
    none {} pre [s]
  have hfollow :
      (alignAll (AnchorClass.generic.within (Kind.ofTag tag)) false (some s.kind) {} pre).2 =
      marginAfter tag pre := by
    have hother : Kind.endsStatement .otherStmt = true := rfl
    rw [marginAfter, alignAll_follow hends hother]
  rw [aligned, alignBelow_mk, happend]
  simp only [List.head?_cons, Option.map_some, Option.some_or, hfollow,
    alignAll_cons_of_endsStatement hends]
  simp [alignAll]

theorem alignedAlone_eq (hs : s.kind.isStatement = true) (tag text tail : String)
    (pre : List Element) :
    AlignedAlone tag text tail pre s ↔
      (s.alignBelow (AnchorClass.generic.within (Kind.ofTag tag))
          ((marginAfter tag pre).readText s.kind s.text)).1 =
        (s.alignBelow (AnchorClass.generic.within (Kind.ofTag tag))
          (({} : Margin).readText s.kind s.text)).1 := by
  obtain ⟨m₁, hm₁, he₁⟩ := updateContinuation_alignOnly ⟨tag, text, tail, pre ++ [s]⟩
  obtain ⟨m₂, hm₂, he₂⟩ := updateContinuation_alignOnly ⟨tag, "", tail, [s]⟩
  have hlast := children_aligned_concat hs tag text tail pre
  have halone : (aligned ⟨tag, "", tail, [s]⟩).children =
      [{ s with
        children := (s.alignBelow (AnchorClass.generic.within (Kind.ofTag tag))
          (({} : Margin).readText s.kind s.text)).1 }] := by
    rw [aligned, alignBelow_mk,
      alignAll_cons_of_endsStatement (Kind.endsStatement_of_isStatement hs)]
    simp [alignAll]
  rw [← he₁] at hlast
  rw [← he₂] at halone
  constructor
  · rintro ⟨m, m', s', hm, hm', h, h'⟩
    obtain rfl : m₁ = m := Except.ok.inj (hm₁.symm.trans hm)
    obtain rfl : m₂ = m' := Except.ok.inj (hm₂.symm.trans hm')
    rw [hlast, Option.some.injEq] at h
    rw [halone, List.cons.injEq] at h'
    exact congrArg Element.children (h.trans h'.1.symm)
  · intro h
    rw [h] at hlast
    exact ⟨m₁, m₂, _, hm₁, hm₂, hlast, halone⟩

/-- A statement after others is aligned as it would be alone, whatever statement it is, exactly if
the walk has come to the beginning of a line and continues no statement. It has where the elements
before end the line of a statement. -/
theorem alignedAlone_iff (tag text tail : String) (pre : List Element) :
    ((∀ s : Element, s.kind.isStatement = true → AlignedAlone tag text tail pre s) ↔
        marginAfter tag pre = {}) ∧
      (LineEnded pre → marginAfter tag pre = {}) := by
  refine ⟨⟨fun h => ?_, fun h s hs => ?_⟩, marginAfter_of_lineEnded tag⟩
  · have hcolumn : ∀ t, probeColumn (marginAfter tag pre) t = probeColumn {} t := by
      intro t
      have hkind : (probe t).kind = .ifStmt := rfl
      have hprobe := (alignedAlone_eq rfl tag text tail pre).mp (h (probe t) rfl)
      rw [hkind, show (probe t).text = t from rfl, alignBelow_probe, alignBelow_probe,
        List.cons.injEq] at hprobe
      have htail := congrArg (fun e : Element => e.tail.toList.length) hprobe.1
      simpa [marker] using htail
    exact margin_eq_of_probes (hcolumn "") (hcolumn "(")
  · rw [alignedAlone_eq hs, h]

/-- An assignment over two lines whose last line is ended by the comment after it. -/
def continuedAssignment : List Element :=
  [{ tag := "a-stmt"
     text := "X = A + "
     tail := " "
     children := [{ tag := "cnt", text := "&", tail := "\n" }, { tag := "E", text := "B" }] },
   { tag := "C", text := "! c", tail := "\n" }]

/-- A call over two lines. -/
def call : Element where
  tag := "call-stmt"
  text := "CALL FOO(A, "
  tail := "\n"
  children := [{ tag := "cnt", text := "&", tail := "\n" }, { tag := "arg", text := "B)" }]

/-- The call finds itself at the beginning of a line, but is aligned on the column of the
assignment. -/
theorem not_alignedAlone_call :
    (sources continuedAssignment).toList.getLast? = some '\n' ∧ call.kind.isStatement = true ∧
      (marginAfter "file" continuedAssignment).column = some 3 ∧
      ¬ AlignedAlone "file" "" "" continuedAssignment call := by
  refine ⟨by decide, by decide, by decide +kernel, ?_⟩
  rw [alignedAlone_eq (by decide)]
  intro h
  have htails := congrArg (List.map Element.tail) h
  revert htails
  decide +kernel

end FortranLayout
