import FortranLayout.Proofs.Indentation.DirectiveLines
import FortranLayout.Proofs.Spacing.Idempotence

/-!
# Which slots spacing edits

Each step of the spacing pass has a footprint: the slots that it may edit, told by the kinds of the
nodes, which never change. All other slots stay exactly as they are, blanks included. The first
round edits the node it visits, its text only if that is code; the second round the conditional
statements and the signs of assignments; the third round, which looks at no kind, the text in front
of a leading marker; the fourth the texts with adjacent keywords. The tails of other nodes are
edited only next to nodes of a few kinds.
-/

namespace FortranLayout

/-- The node, or the sibling after it, has one of the given kinds. -/
def Forest.Beside (f : Forest) (kinds : List Kind) (i : NodeId) : Prop :=
  f.kind i ∈ kinds ∨ ∃ n, f.FollowedBy i (some n) ∧ f.kind n ∈ kinds

/-- The nodes are the same, and so are the slots but those that are `touched`. -/
structure Draft.Edits (touched : TextSlot → Prop) (d d' : Draft) : Prop where
  shape : d.forest.SameShape d'.forest
  slot_eq : ∀ a, ¬ touched a → d'.forest.slot a = d.forest.slot a

namespace Draft

variable {touched touched' : TextSlot → Prop} {f : Forest} {d d' d'' : Draft} {i : NodeId}

theorem Edits.refl (d : Draft) : d.Edits touched d := ⟨.refl _, fun _ _ => rfl⟩

theorem Edits.trans (h : d.Edits touched d') (h' : d'.Edits touched d'') : d.Edits touched d'' :=
  ⟨h.shape.trans h'.shape, fun a ha => (h'.slot_eq a ha).trans (h.slot_eq a ha)⟩

theorem Edits.mono (h : d.Edits touched d') (hsub : ∀ a, touched a → touched' a) :
    d.Edits touched' d' :=
  ⟨h.shape, fun a ha => h.slot_eq a fun ht => ha (hsub a ht)⟩

theorem Edits.text_eq (h : d.Edits touched d') {j : NodeId} (hj : ¬ touched (.text j)) :
    d'.forest.text j = d.forest.text j := String.toList_inj.mp (h.slot_eq (.text j) hj)

theorem Edits.tail_eq (h : d.Edits touched d') {j : NodeId} (hj : ¬ touched (.tail j)) :
    d'.forest.tail j = d.forest.tail j := String.toList_inj.mp (h.slot_eq (.tail j) hj)

theorem text_editTail (d : Draft) (i j : NodeId) (g : List Char → List Char) :
    (d.editTail i g).forest.text j = d.forest.text j :=
  String.toList_inj.mp (slot_editSlot_of_ne (a := .tail i) (b := .text j) (by simp))

theorem tail_editText (d : Draft) (i j : NodeId) (g : List Char → List Char) :
    (d.editText i g).forest.tail j = d.forest.tail j :=
  String.toList_inj.mp (slot_editSlot_of_ne (a := .text i) (b := .tail j) (by simp))

/-- The nodes do not change from step to step. -/
theorem edits_foldl {α : Type} {step : Draft → α → Draft} {xs : List α} (hd : f.SameShape d.forest)
    (h : ∀ x ∈ xs, ∀ d : Draft, f.SameShape d.forest → d.Edits touched (step d x)) :
    d.Edits touched (xs.foldl step d) := by
  induction xs generalizing d with
  | nil => exact .refl d
  | cons x xs ih =>
    obtain ⟨hx, hxs⟩ := List.forall_mem_cons.mp h
    have hfirst := hx d hd
    exact hfirst.trans (ih (hd.trans hfirst.shape) hxs)

theorem edits_editTail (d : Draft) (h : touched (.tail i)) (g : List Char → List Char) :
    d.Edits touched (d.editTail i g) :=
  ⟨d.sameShape_editSlot (.tail i) g,
    fun _ ha => slot_editSlot_of_ne (a := .tail i) fun e => ha (e ▸ h)⟩

theorem edits_editText (d : Draft) (h : touched (.text i)) (g : List Char → List Char) :
    d.Edits touched (d.editText i g) :=
  ⟨d.sameShape_editSlot (.text i) g,
    fun _ ha => slot_editSlot_of_ne (a := .text i) fun e => ha (e ▸ h)⟩

theorem edits_editCode (d : Draft) (htail : touched (.tail i))
    (htext : (d.forest.kind i).isNonCode = false → touched (.text i)) (g : List Char → List Char) :
    d.Edits touched (d.editCode i g) := by
  have hedit : d.Edits touched (d.editTail i g) := edits_editTail d htail g
  rw [editCode]
  split
  · exact hedit
  · rename_i hcode
    rw [← hedit.shape.kind_eq] at htext
    exact hedit.trans (edits_editText _ (htext (by simpa using hcode)) g)

variable {g : Nat → List Char → List Char}

theorem edits_fitTail (d : Draft) (h : touched (.tail i)) (w : Width) :
    d.Edits touched (d.fitTail i w g) := by
  cases w with
  | keep => exact .refl d
  | exactly n => exact edits_editTail d h _

theorem edits_fitText (d : Draft) (h : touched (.text i)) (w : Width) :
    d.Edits touched (d.fitText i w g) := by
  cases w with
  | keep => exact .refl d
  | exactly n => exact edits_editText d h _

theorem edits_fitCode (d : Draft) (htail : touched (.tail i))
    (htext : (d.forest.kind i).isNonCode = false → touched (.text i)) (w : Width) :
    d.Edits touched (d.fitCode i w g) := by
  cases w with
  | keep => exact .refl d
  | exactly n => exact edits_editCode d htail htext _

/-- Where each node is visited once, and the visits to the others do not touch a slot, the slot
changes in one visit only. -/
theorem exists_visit {step : Draft → NodeId → Draft} {order : List NodeId} {a : TextSlot}
    (hnodup : order.Nodup) (hi : i ∈ order) (hd : f.SameShape d.forest)
    (h : ∀ d : Draft, f.SameShape d.forest → d.forest.SameShape (step d i).forest)
    (hother : ∀ j ∈ order, j ≠ i → ∀ d : Draft, f.SameShape d.forest → d.Edits (· ≠ a) (step d j)) :
    ∃ d', d.Edits (· ≠ a) d' ∧ (step d' i).Edits (· ≠ a) (order.foldl step d) := by
  obtain ⟨before, after, rfl⟩ := List.append_of_mem hi
  obtain ⟨hbefore, hafter⟩ : i ∉ before ∧ i ∉ after := by
    rw [List.nodup_middle, List.nodup_cons, List.mem_append, not_or] at hnodup
    exact hnodup.1
  have hfirst : d.Edits (· ≠ a) (before.foldl step d) := edits_foldl hd fun j hj d' hd' =>
    hother j (List.mem_append_left _ hj) (fun e => hbefore (e ▸ hj)) d' hd'
  have hshape := hd.trans hfirst.shape
  refine ⟨before.foldl step d, hfirst, ?_⟩
  rw [List.foldl_append, List.foldl_cons]
  exact edits_foldl (hshape.trans (h _ hshape)) fun j hj d' hd' =>
    hother j (List.mem_append_right _ (List.mem_cons_of_mem i hj)) (fun e => hafter (e ▸ hj)) d' hd'

end Draft

namespace SpacingRules

open Draft Forest

variable {touched : TextSlot → Prop} {f : Forest} {i : NodeId} {d : Draft} (r : SpacingRules)

/-! ## First round -/

theorem edits_punctuation (d : Draft) (htail : touched (.tail i))
    (htext : (d.forest.kind i).isNonCode = false → touched (.text i)) :
    d.Edits touched (r.punctuation d i) := by
  have htabs : d.Edits touched (if r.expandTabs then d.editTail i Text.expandTabs else d) := by
    split
    · exact edits_editTail d htail _
    · exact .refl d
  have hcode {d' : Draft} (hd : d.Edits touched d') (w : Width) (g : Nat → List Char → List Char) :
      d.Edits touched (d'.fitCode i w g) :=
    hd.trans (edits_fitCode d' htail (by rwa [hd.shape.kind_eq]) w)
  have hcommas :=
    hcode (hcode (hcode (hcode htabs r.beforeParenthesis Gaps.beforeParentheses) r.afterParenthesis
    Gaps.afterParentheses) r.beforeComma fun n => (Gaps.before ',' n).everywhere) r.afterComma
    fun n => (Gaps.after ',' n).everywhere
  rw [punctuation]
  split
  · exact hcommas.trans (edits_editTail _ htail _)
  · exact hcommas

theorem edits_equalSign (d : Draft) (h : touched (.tail i)) (before after : Width) :
    d.Edits touched (equalSign d i before after) :=
  (edits_fitTail d h before).trans (edits_fitTail _ h after)

theorem edits_associationGaps (d : Draft) (h : touched (.tail i)) :
    d.Edits touched (r.associationGaps d i) := by
  have harrow : d.Edits touched _ :=
    (edits_fitTail (g := fun n => (Gaps.before '=' n).everywhere) d h r.beforeAffectation).trans
      (edits_fitTail (g := fun n => (Gaps.after '>' n).everywhere) _ h r.afterAffectation)
  rw [associationGaps]
  split
  · exact harrow.trans (edits_editTail _ h _)
  · exact harrow

/-- The kinds next to which the first round edits the tails of other nodes than the one that it
visits. -/
def firstKinds : List Kind := [.namePart, .separator]

/-- The text of the node that is visited, if it is code, and its tail, and those next to the kinds
of the round. -/
def firstFootprint (f : Forest) (i : NodeId) : TextSlot → Prop
  | .text j => j = i ∧ (f.kind i).isNonCode = false
  | .tail j => j = i ∨ f.Beside firstKinds j

theorem edits_nameGaps (hd : f.SameShape d.forest) :
    d.Edits (firstFootprint f i) (r.nameGaps d i) := by
  rw [nameGaps]
  refine Edits.trans ?_ (edits_fitTail _ (Or.inl rfl) _)
  split
  · refine edits_foldl hd fun part hpart d' _ => edits_editTail d' (Or.inr (Or.inl ?_)) _
    have hkind : d.forest.kind part = .namePart := by simpa using (List.mem_filter.mp hpart).2
    rw [← hd.kind_eq, hkind]
    decide
  · exact .refl d

theorem edits_separatorGaps (hd : f.SameShape d.forest) (hk : d.forest.kind i = .separator) :
    d.Edits (firstFootprint f i) (r.separatorGaps d i) := by
  rw [separatorGaps]
  refine Edits.trans ?_ (edits_fitTail _ (Or.inl rfl) _)
  split
  · rename_i p hp
    rw [hd.previousSibling?_eq] at hp
    refine edits_fitTail d (Or.inr (Or.inr ⟨i, followedBy_of_previousSibling? hp, ?_⟩)) _
    rw [← hd.kind_eq, hk]
    decide
  · exact .refl d

theorem isNonCode_afterKeyword (k : AfterKeyword) (hk : k ∈ AfterKeyword.all) :
    k.kind.isNonCode = false := by
  revert k
  decide

theorem edits_keywordGap (hd : f.SameShape d.forest) :
    d.Edits (firstFootprint f i) (r.keywordGap d i) := by
  rw [keywordGap]
  split
  · exact .refl d
  · rename_i entry hentry
    obtain ⟨hmem, hkind⟩ := AfterKeyword.of_forKind? hentry
    split
    · split
      · refine edits_editText d ⟨rfl, ?_⟩ _
        rw [← hd.kind_eq, ← hkind]
        exact isNonCode_afterKeyword entry hmem
      · exact .refl d
    · exact .refl d

theorem edits_kindGaps (hd : f.SameShape d.forest) :
    d.Edits (firstFootprint f i) (r.kindGaps d i) := by
  have htail : firstFootprint f i (.tail i) := Or.inl rfl
  have htext {k : Kind} (hk : d.forest.kind i = k) (hcode : k.isNonCode = false) :
      firstFootprint f i (.text i) := ⟨rfl, by rw [← hd.kind_eq, hk, hcode]⟩
  rw [kindGaps]
  split
  iterate 3 exact r.edits_nameGaps hd
  iterate 2
    split
    · exact (edits_fitTail d htail _).trans (edits_fitTail _ htail _)
    · exact .refl d
  · exact edits_editTail d htail _
  · exact (edits_editTail d htail _).trans (edits_fitTail _ htail _)
  · rename_i hk
    dsimp only
    split
    · exact .refl d
    · split
      · exact edits_editText d (htext hk rfl) _
      · exact edits_fitText d (htext hk rfl) _
  iterate 2
    rename_i hk
    split
    · exact edits_fitText d (htext hk rfl) _
    · exact .refl d
  iterate 5
    split
    · exact edits_equalSign d htail _ _
    · exact .refl d
  · rename_i hk
    exact r.edits_separatorGaps hd hk
  · split
    · exact r.edits_associationGaps d htail
    · exact .refl d
  · exact r.edits_keywordGap hd

theorem edits_firstRound (hd : f.SameShape d.forest) :
    d.Edits (firstFootprint f i) (r.firstRound d i) := by
  have hpunctuation : d.Edits (firstFootprint f i) (r.punctuation d i) :=
    r.edits_punctuation d (Or.inl rfl) fun hcode => ⟨rfl, by rwa [← hd.kind_eq]⟩
  exact hpunctuation.trans (r.edits_kindGaps (hd.trans hpunctuation.shape))

/-! ## Second round -/

/-- The kinds next to which the second round edits tails. -/
def secondKinds : List Kind := [.op, .opSpelling, .affectation, .condition, .mask, .forallTriplets]

/-- The texts of the node that is visited and of the signs of assignments, if they are code, and the
tails next to the kinds of the round. -/
def secondFootprint (f : Forest) (i : NodeId) : TextSlot → Prop
  | .text j => (j = i ∨ f.kind j = .affectation) ∧ (f.kind j).isNonCode = false
  | .tail j => f.Beside secondKinds j

theorem edits_aroundChildren (hd : f.SameShape d.forest) {kind : Kind} (hk : kind ∈ secondKinds)
    (before after : Width) :
    d.Edits (secondFootprint f i) (aroundChildren d i kind before after) := by
  rw [aroundChildren, hd.children_eq]
  refine edits_foldl hd fun step hstep d hd => ?_
  obtain ⟨previous, child⟩ := step
  dsimp only
  split
  · rename_i hchild
    rw [hd.kind_eq, beq_iff_eq] at hchild
    have hkind : f.kind child ∈ secondKinds := hchild ▸ hk
    refine Edits.trans ?_ (edits_fitTail _ (Or.inl hkind) after)
    cases previous with
    | none => exact .refl d
    | some p =>
      obtain ⟨us, vs, hchildren⟩ := exists_of_mem_withPrevious hstep
      exact edits_fitTail d (Or.inr ⟨child, ⟨i, us, child :: vs, hchildren, rfl⟩, hkind⟩) before
  · exact .refl d

theorem kind_of_mem_childrenOfKind {kind : Kind} {c : NodeId} (h : c ∈ childrenOfKind d i kind) :
    d.forest.kind c = kind := by simpa using (List.mem_filter.mp h).2

theorem edits_operators (hd : f.SameShape d.forest) :
    d.Edits (secondFootprint f i) (r.operators d i) := by
  have hop : Kind.op ∈ secondKinds := by decide
  have hspelling : Kind.opSpelling ∈ secondKinds := by decide
  have haround : d.Edits (secondFootprint f i) (aroundChildren d i .op r.beforeOp r.afterOp) :=
    edits_aroundChildren hd hop _ _
  rw [operators]
  refine haround.trans ?_
  split
  · refine edits_foldl (hd.trans haround.shape) fun op _ d hd =>
      edits_foldl hd fun part hpart d' _ =>
      edits_editTail d' (Or.inl ?_) _
    rwa [← hd.kind_eq, kind_of_mem_childrenOfKind hpart]
  · exact .refl _

theorem edits_affectations (hd : f.SameShape d.forest) :
    d.Edits (secondFootprint f i) (r.affectations d i) := by
  have hsign : Kind.affectation ∈ secondKinds := by decide
  have haround : d.Edits (secondFootprint f i)
      (aroundChildren d i .affectation r.beforeAffectation r.afterAffectation) :=
    edits_aroundChildren hd hsign _ _
  rw [affectations]
  refine haround.trans ?_
  replace hd := hd.trans haround.shape
  split
  · refine edits_foldl hd fun sign hsign d' _ => edits_editText d' ?_ _
    have hkind : f.kind sign = .affectation := by
      rw [← hd.kind_eq, kind_of_mem_childrenOfKind hsign]
    exact ⟨Or.inr hkind, by rw [hkind]; rfl⟩
  · exact .refl _

theorem edits_partGap (hd : f.SameShape d.forest) {part : Kind}
    (hk : part ∈ secondKinds) (w : Width) (g : Nat → List Char → List Char) :
    d.Edits (secondFootprint f i) (match d.forest.childOfKind? i part with
      | some c => d.fitTail c w g
      | none => d) := by
  split
  · rename_i c hc
    have hkind : d.forest.kind c = part := by simpa using List.find?_some hc
    rw [hd.kind_eq] at hkind
    exact edits_fitTail d (Or.inl (hkind ▸ hk)) w
  · exact .refl d

theorem edits_conditionalKeyword (d : Draft) (h : touched (.text i)) :
    d.Edits touched (r.conditionalKeyword d i) := by
  rw [conditionalKeyword]
  split
  · split
    · exact edits_fitText d h _
    · exact .refl d
  · exact edits_fitText d h _

theorem edits_conditional (hd : f.SameShape d.forest) (hcode : (f.kind i).isNonCode = false) :
    d.Edits (secondFootprint f i) (r.conditional d i) := by
  have hkeyword : d.Edits (secondFootprint f i) (r.conditionalKeyword d i) :=
    r.edits_conditionalKeyword d ⟨Or.inl rfl, hcode⟩
  refine hkeyword.trans ?_
  replace hd := hd.trans hkeyword.shape
  unfold conditional
  dsimp only
  generalize r.conditionalKeyword d i = d' at hd
  split
  iterate 5 exact edits_partGap hd (by decide) _ _
  · exact .refl d'

theorem edits_secondRound (hd : f.SameShape d.forest) :
    d.Edits (secondFootprint f i) (r.secondRound d i) := by
  rw [secondRound]
  split
  · exact r.edits_operators hd
  iterate 2 exact r.edits_affectations hd
  iterate 10
    rename_i hk
    exact r.edits_conditional hd (by rw [← hd.kind_eq, hk]; rfl)
  · exact .refl d

/-! ## Third and fourth round -/

/-- What is in front of the marker, the tail of its sibling or the text of its parent, and its tail.
-/
def markerFootprint (parent : NodeId) (previous : Option NodeId) (marker : NodeId) : TextSlot → Prop
  | .text j => previous = none ∧ j = parent
  | .tail j => previous = some j ∨ j = marker

theorem edits_markerGap (d : Draft) {previous : Option NodeId} {marker : NodeId} :
    d.Edits (markerFootprint i previous marker) (r.markerGap d i previous marker) := by
  have hbegin : d.Edits (markerFootprint i previous marker)
      (if Text.hasNewline (d.forest.tail marker).toList then d
        else d.fitTail marker r.afterBeginMarker Text.leadWith) := by
    split
    · exact .refl d
    · exact edits_fitTail d (Or.inr rfl) _
  cases previous with
  | none =>
    rw [markerGap]
    split
    · exact hbegin
    · exact edits_fitText d ⟨rfl, rfl⟩ _
  | some p =>
    rw [markerGap]
    split
    · exact hbegin
    · exact edits_fitTail d (Or.inl rfl) _

/-- The text of the node that is visited, and the tails next to markers. -/
def thirdFootprint (f : Forest) (i : NodeId) : TextSlot → Prop
  | .text j => j = i
  | .tail j => f.Beside [.continuation] j

theorem edits_thirdRound (hd : f.SameShape d.forest) :
    d.Edits (thirdFootprint f i) (r.thirdRound d i) := by
  rw [thirdRound, hd.children_eq]
  refine edits_foldl hd fun step hstep d hd => ?_
  obtain ⟨previous, marker⟩ := step
  dsimp only
  split
  · rename_i hmarker
    rw [hd.kind_eq, beq_iff_eq] at hmarker
    have hkind : f.kind marker ∈ [Kind.continuation] := List.mem_singleton.mpr hmarker
    refine (r.edits_markerGap d).mono fun a ha => ?_
    cases a with
    | text j => exact ha.2
    | tail j =>
      rcases ha with hprevious | hself
      · subst hprevious
        obtain ⟨us, vs, hchildren⟩ := exists_of_mem_withPrevious hstep
        exact Or.inr ⟨marker, ⟨i, us, marker :: vs, hchildren, rfl⟩, hkind⟩
      · exact Or.inl (hself ▸ hkind)
  · exact .refl d

/-- The texts of the nodes of which the entry speaks. -/
def fourthFootprint (f : Forest) (entry : AdjacentKeyword) : TextSlot → Prop
  | .text j => f.kind j = entry.target.kindOf
  | .tail _ => False

theorem edits_fourthRound (hd : f.SameShape d.forest) (order : List NodeId)
    (entry : AdjacentKeyword) :
    d.Edits (fourthFootprint f entry) (r.fourthRound order d entry) := by
  rw [fourthRound]
  split
  · refine edits_foldl hd fun i _ d hd => ?_
    split
    · rename_i htarget
      refine edits_editText d ?_ _
      rw [fourthFootprint, ← hd.kind_eq]
      exact kind_of_isTarget htarget
    · exact .refl d
  · exact .refl d

end SpacingRules

end FortranLayout
