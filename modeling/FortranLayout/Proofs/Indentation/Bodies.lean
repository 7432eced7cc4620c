import FortranLayout.Proofs.Indentation.Program
import FortranLayout.Proofs.Indentation.Refinement

/-!
# Indentation of the bodies of a program

What the walk does to the elements of a program, one after the other: a statement that heads a body
raises the level, the items of the body all get the same level after them (`indentAll_of_standing`),
and a closing statement only sets the line that it is on (`indentAll_concat`).
-/

namespace FortranLayout

namespace Program

variable {P : Kind → Prop}

/-! ## Levels written in tails -/

open Text (lineBreak)
open Element (keepsLine indentAll)

variable {p : IndentParams} {next : Option Element} {e : Element}

theorem expandTabs_blanks (n : Nat) : Text.expandTabs (Text.blanks n) = Text.blanks n := by
  induction n with
  | zero => rfl
  | succ n ih => exact congrArg (' ' :: ·) ih

theorem atLevel_lineBreak (level n : Nat) :
    IndentParams.atLevel level ('\n' :: Text.blanks n) = '\n' :: Text.blanks level := by
  have htabs : Text.expandTabs ('\n' :: Text.blanks n) = '\n' :: Text.blanks n :=
    congrArg ('\n' :: ·) (expandTabs_blanks n)
  have hdrop : (Text.blanks n).dropWhile Text.isBlank = [] := by
    simpa using Text.dropWhile_blanks_append (s := []) n (by simp)
  rw [IndentParams.atLevel, htabs, Text.Pattern.everywhere_after_newline, hdrop]
  simp [Text.Pattern.everywhere, Text.Pattern.everywhereWithin]

theorem setLevel_lineBreak {n : Nat} (hnext : keepsLine p next = false) (he : e.tail = lineBreak n)
    (level : Nat) : e.setLevel p level next = { e with tail := lineBreak level } := by
  rw [Element.setLevel, hnext, if_neg Bool.false_ne_true, he, lineBreak, String.toList_ofList,
    atLevel_lineBreak]
  rfl

/-- Nothing is written in an empty tail. -/
theorem setLevel_empty (he : e.tail = "") (level : Nat) (next : Option Element) :
    e.setLevel p level next = e := by
  obtain ⟨tag, text, tail, cs⟩ := e
  obtain rfl : tail = "" := he
  rw [Element.setLevel]
  split <;> rfl

/-! ## Elements that leave the level as it is -/

/-- An element of this kind neither changes the level nor sets the line that it is on. -/
structure Neutral (kind : Kind) : Prop where
  ne_unitStmt : ∀ u, kind ≠ .unitStmt u
  ne_endUnitStmt : ∀ u, kind ≠ .endUnitStmt u
  ne_constructStmt : ∀ c, kind ≠ .constructStmt c
  ne_endConstructStmt : ∀ c, kind ≠ .endConstructStmt c
  opensBranch_eq : kind.opensBranch = false
  closesBranch_eq : kind.closesBranch = false
  isCommentLike_eq : kind.isCommentLike = false

theorem neutral_block (family : BlockFamily) : Neutral (.block family) :=
  ⟨nofun, nofun, nofun, nofun, rfl, rfl, rfl⟩

theorem neutral_construct (c : Construct) : Neutral (.construct c) :=
  ⟨nofun, nofun, nofun, nofun, rfl, rfl, rfl⟩

theorem neutral_programUnit : Neutral .programUnit := ⟨nofun, nofun, nofun, nofun, rfl, rfl, rfl⟩

theorem neutral_of_plain {kind : Kind} (hs : kind.isStatement = true)
    (hd : ¬ kind.isDelimiter = true) : Neutral kind := by
  refine ⟨?_, ?_, ?_, ?_, ?_, ?_, ?_⟩
  · rintro u rfl
    exact hd rfl
  · rintro u rfl
    exact hd rfl
  · rintro c rfl
    exact hd rfl
  · rintro c rfl
    exact hd rfl
  · cases kind <;> first | rfl | exact absurd rfl hd
  · cases kind <;> first | rfl | exact absurd rfl hd
  · cases kind <;> first | rfl | cases hs

/-- The construct around, if there is one, is of a known kind. -/
def Known (inside : Option String) : Prop :=
  ∀ tag ∈ inside, ∃ c, c ≠ .other ∧ Kind.ofTag tag = .construct c

theorem known_none : Known none := nofun

theorem known_some {tag : String} {c : Construct} (htag : Kind.ofTag tag = .construct c)
    (hc : c ≠ .other) : Known (some tag) := by
  rintro tag' h
  obtain rfl := Option.mem_some_iff.mp h
  exact ⟨c, hc, htag⟩

theorem opensBody_eq {tag : String} {c : Construct} (hc : c ≠ .other)
    (htag : Kind.ofTag tag = .construct c) (e : Element) : e.opensBody tag = e.kind.opens c := by
  rw [Element.opensBody, htag]
  cases c <;> first | rfl | exact absurd rfl hc

theorem closesBody_eq {tag : String} {c : Construct} (hc : c ≠ .other)
    (htag : Kind.ofTag tag = .construct c) (e : Element) : e.closesBody tag = e.kind.closes c := by
  rw [Element.closesBody, htag]
  cases c <;> first | rfl | exact absurd rfl hc

theorem keepsLine_of_not_isCommentLike (he : e.kind.isCommentLike = false) :
    keepsLine p (some e) = false := by
  rw [keepsLine]
  generalize e.kind = kind at he
  cases kind <;> first | rfl | cases he

variable {inside : Option String}

namespace Neutral

theorem levelAfter_eq (he : Neutral e.kind) (hinside : Known inside) (level : Nat) :
    e.levelAfter p inside level = level := by
  have hopens : inside.any (Element.opensBody · e) = false := by
    cases inside with
    | none => rfl
    | some tag =>
      obtain ⟨c, hc, htag⟩ := hinside tag rfl
      simp [opensBody_eq hc htag, Kind.opens, he.ne_constructStmt]
  rw [Element.levelAfter, hopens]
  split
  · exact absurd ‹_› (he.ne_unitStmt _)
  · rw [he.opensBranch_eq]
    rfl

theorem isCloser_eq (he : Neutral e.kind) (hinside : Known inside) : e.isCloser inside = false := by
  have hcloses : inside.any (Element.closesBody · e) = false := by
    cases inside with
    | none => rfl
    | some tag =>
      obtain ⟨c, hc, htag⟩ := hinside tag rfl
      simp [closesBody_eq hc htag, Kind.closes, he.ne_endConstructStmt]
  rw [Element.isCloser, hcloses]
  split
  · exact absurd ‹_› (he.ne_endUnitStmt _)
  · rw [he.closesBranch_eq]
    rfl

theorem keepsLine_eq (he : Neutral e.kind) : keepsLine p (some e) = false :=
  keepsLine_of_not_isCommentLike he.isCommentLike_eq

end Neutral

/-! ## Items one after the other -/

/-- An element as the tree of an item is: it has its line break, and it neither heads nor ends a
branch. -/
structure Standing (e : Element) : Prop where
  neutral : Neutral e.kind
  ne_endSelectCaseStmt : e.kind ≠ .endSelectCaseStmt
  startsInterBranch_eq : e.startsInterBranch = false
  tail_eq : ∃ n, e.tail = lineBreak n

theorem closeLast_singleton (closer b : Element) :
    closeLast closer [b] = [{ b with children := b.children ++ [closer] }] := rfl

theorem closeLast_cons_cons (closer b b' : Element) (blocks : List Element) :
    closeLast closer (b :: b' :: blocks) = b :: closeLast closer (b' :: blocks) :=
  List.modifyLast_append_of_right_ne_nil _ [b] (b' :: blocks) (List.cons_ne_nil _ _)

/-- The first block is the same, but for what it may end with. -/
theorem head?_closeLast (closer b : Element) (blocks : List Element) :
    ∃ extra, (closeLast closer (b :: blocks)).head? =
      some { b with children := b.children ++ extra } := by
  cases blocks with
  | nil => exact ⟨[closer], rfl⟩
  | cons b' blocks =>
    refine ⟨[], ?_⟩
    rw [closeLast_cons_cons, List.head?_cons, List.append_nil]
    cases b
    rfl

theorem standing_container {tag : String} {kind : Kind} (htag : Kind.ofTag tag = kind)
    (hneutral : Neutral kind) (hne : kind ≠ .endSelectCaseStmt) {cs : List Element}
    (hcs : ∀ c ∈ cs.head?, c.kind.isInterBranch = false) (n : Nat) :
    Standing ⟨tag, "", lineBreak n, cs⟩ := by
  subst htag
  refine ⟨hneutral, hne, ?_, n, rfl⟩
  rw [Element.startsInterBranch]
  cases cs with
  | nil => rfl
  | cons c cs => exact hcs c rfl

theorem Item.standing (item : Item) : Standing item.element := by
  cases item with
  | plain line =>
    obtain ⟨⟨tag, hs, hd⟩, text, n⟩ := line
    rw [Item.element]
    refine ⟨neutral_of_plain hs hd, ?_, rfl, n, rfl⟩
    intro hk
    apply hd
    rw [show Kind.ofTag tag = .endSelectCaseStmt from hk]
    rfl
  | enclosed c enclosing node head body closer =>
    rw [Item.element]
    refine standing_container node.kind_tag (neutral_construct c) Kind.noConfusion ?_ _
    rintro _ ⟨⟩
    exact congrArg Kind.isInterBranch head.kind_tag
  | branching node first later closer =>
    obtain ⟨extra, hhead⟩ := head?_closeLast closer.ending (first.element (first.body.map element))
      (later.map fun b => b.element (b.body.map element))
    obtain ⟨family, hblock⟩ := first.block.kind_tag
    have hfirst : ∀ c ∈ (closeLast closer.ending (first.element (first.body.map element) ::
        later.map fun b => b.element (b.body.map element))).head?,
        c.kind.isInterBranch = false := by
      rw [hhead]
      rintro _ ⟨⟩
      exact congrArg Kind.isInterBranch hblock
    rw [Item.element]
    rcases node.kind_tag with hk | hk
    · exact standing_container hk (neutral_construct _) Kind.noConfusion hfirst _
    · exact standing_container hk (neutral_construct _) Kind.noConfusion hfirst _
  | selection node block head first later closer =>
    obtain ⟨family, hblock⟩ := block.kind_tag
    rw [Item.element]
    refine standing_container node.kind_tag (neutral_construct _) Kind.noConfusion ?_ _
    rintro _ ⟨⟩
    exact congrArg Kind.isInterBranch hblock
  | unit u node head body closer =>
    rw [Item.element]
    refine standing_container node.kind_tag neutral_programUnit Kind.noConfusion ?_ _
    rintro _ ⟨⟩
    exact congrArg Kind.isInterBranch head.kind_tag

/-- An element when the walk has gone through it at the level `current`, before the next is looked
at. -/
def settled (p : IndentParams) (current : Nat) (e : Element) : Element :=
  { e with
    tail := lineBreak current
    children := if e.kind.isContainer then e.indentBelow p current e.innerTag else e.children }

theorem visit_of_tail {n : Nat} (he : e.tail = lineBreak n) (hnext : keepsLine p next = false)
    (level current : Nat) : e.visit p level false current next = settled p current e := by
  rw [Element.visit, if_neg Bool.false_ne_true, setLevel_lineBreak hnext he, settled]
  split <;> rfl

/-- Neither a neutral element nor the end sets anything in the element before. -/
theorem leadTo_of_standing (hinside : Known inside) (hnext : ∀ n ∈ next, Standing n) (level : Nat)
    (e : Element) : e.leadTo p level inside false next = e := by
  cases next with
  | none => rfl
  | some n =>
    have hn := hnext n rfl
    rw [Element.leadTo, hn.neutral.isCloser_eq hinside, if_neg Bool.false_ne_true,
      Element.leadToBranch, hn.startsInterBranch_eq, Bool.and_false, if_neg Bool.false_ne_true,
      if_neg Bool.false_ne_true]

theorem keepsLine_of_standing (hnext : ∀ n ∈ next, Standing n) : keepsLine p next = false := by
  cases next with
  | none => rfl
  | some n => exact (hnext n rfl).neutral.keepsLine_eq

theorem indentAll_of_standing (hinside : Known inside) {es : List Element}
    (hes : ∀ e ∈ es, Standing e) (level current : Nat) :
    indentAll p level inside false current es = es.map (settled p current) := by
  induction es with
  | nil => rw [indentAll, List.map_nil]
  | cons e rest ih =>
    have he := hes e List.mem_cons_self
    have hrest : ∀ n ∈ rest, Standing n := fun n hn => hes n (List.mem_cons_of_mem _ hn)
    have hnext : ∀ n ∈ rest.head?, Standing n := fun n hn => hrest n (List.mem_of_head? hn)
    obtain ⟨n, htail⟩ := he.tail_eq
    rw [Element.indentAll_cons, he.neutral.levelAfter_eq hinside,
      visit_of_tail htail (keepsLine_of_standing hnext), leadTo_of_standing hinside hnext, ih hrest,
      List.map_cons]

variable {es : List Element} {level after : Nat}

/-! ## A head, a body, a closing statement -/

/-- A statement that is neither a container nor a comment. -/
structure Leaf (kind : Kind) : Prop where
  isContainer_eq : kind.isContainer = false
  isCommentLike_eq : kind.isCommentLike = false

theorem indentAll_headed (hinside : Known inside) (head : Line P) (hhead : Leaf head.element.kind)
    (hlevel : head.element.levelAfter p inside level = after) (hes : ∀ e ∈ es, Standing e) :
    indentAll p level inside false level (head.element :: es) =
      { head.element with tail := lineBreak after } :: es.map (settled p after) := by
  have hnext : ∀ n ∈ es.head?, Standing n := fun n hn => hes n (List.mem_of_head? hn)
  have hsettled : settled p after head.element = { head.element with tail := lineBreak after } := by
    rw [settled, if_neg]
    exact fun h => Bool.false_ne_true (hhead.isContainer_eq.symm.trans h)
  rw [Element.indentAll_cons, hlevel, visit_of_tail rfl (keepsLine_of_standing hnext),
    leadTo_of_standing hinside hnext, indentAll_of_standing hinside hes, hsettled]

/-- The last statement of a container sets the line that it is on, and nothing else. -/
theorem indentAll_concat {c : Element} (htail : c.tail = "") (hc : Leaf c.kind)
    (level current : Nat) (es : List Element) :
    indentAll p level inside false current (es ++ [c]) =
      (indentAll p level inside false current es).modifyLast
        (Element.leadTo p level inside false (some c)) ++ [c] := by
  have hkeeps : keepsLine p (some c) = keepsLine p none :=
    keepsLine_of_not_isCommentLike hc.isCommentLike_eq
  induction es generalizing current with
  | nil =>
    rw [List.nil_append, Element.indentAll_cons, Element.visit, setLevel_empty htail,
      hc.isContainer_eq, if_neg Bool.false_ne_true, if_neg Bool.false_ne_true]
    simp only [indentAll]
    rfl
  | cons e es ih =>
    rw [List.cons_append, Element.indentAll_cons, Element.indentAll_cons, ih]
    cases es with
    | nil =>
      have hvisit : ∀ current, e.visit p level false current (some c) =
          e.visit p level false current none := by
        intro current
        rw [Element.visit, Element.visit, Element.setLevel, hkeeps, ← Element.setLevel]
      rw [List.nil_append, List.head?_cons, List.head?_nil, hvisit]
      simp only [indentAll]
      rfl
    | cons e' es =>
      have hrest :
          indentAll p level inside false (e.levelAfter p inside current) (e' :: es) ≠ [] := by
        rw [Element.indentAll_cons]
        exact List.cons_ne_nil _ _
      exact congrArg (· ++ [c]) (List.modifyLast_append_of_right_ne_nil _ [_] _ hrest).symm

theorem leadTo_closer {c : Element} (hc : Leaf c.kind) (hcloser : c.isCloser inside = true)
    (level : Nat) :
    Element.leadTo p level inside false (some c) = Element.setLevel p level (some c) := by
  funext e
  rw [Element.leadTo, if_pos hcloser, Element.leadToBranch, hc.isContainer_eq, Bool.false_and,
    if_neg Bool.false_ne_true, if_neg Bool.false_ne_true]

theorem standing_items (items : List Item) : ∀ e ∈ items.map Item.element, Standing e := by
  intro e he
  obtain ⟨item, _, rfl⟩ := List.mem_map.mp he
  exact item.standing

end Program

end FortranLayout
