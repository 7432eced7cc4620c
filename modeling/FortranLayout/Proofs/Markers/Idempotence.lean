import FortranLayout.Proofs.Alignment.Idempotence
import FortranLayout.Proofs.Markers.Visits

/-!
# Updating twice

The first update of a tidy tree leaves markers after which there is nothing to add, and aligned
lines. It changes blanks only where it aligns, so the markers stay settled, and a second update with
the same options finds nothing to do (`updateContinuation_updateContinuation`).
-/

namespace FortranLayout

open Forest

theorem codeFrom_eq_nil_iff {s : List Char} : codeFrom s = [] ↔ s.filter isCode = [] := by
  rw [codeFrom, List.dropWhile_eq_nil_iff, List.filter_eq_nil_iff]
  exact forall₂_congr fun c _ => by rw [Bool.not_eq_true', Bool.not_eq_true]

namespace Forest

variable {f g : Forest} {s : Shape}

/-- There is nothing to add after node `c`, with the siblings `post` after it. -/
def SettledAt (f : Forest) (c : NodeId) (post : List NodeId) : Prop :=
  f.kind c = .continuation →
    Text.hasNewline (f.tail c).toList = true ∨ f.beforeComment post.head? = true →
    codeFrom (f.tail c).toList = [] ∧
      ∀ d ∈ (post.dropWhile fun d => (f.kind d).isCommentLike).head?, f.kind d = .continuation

/-- There is nothing to add below any node of a shape. -/
def Settled (f : Forest) (s : Shape) : Prop :=
  ∀ p ∈ s.preorder, ∀ pre c post, f.children p = pre ++ c :: post → f.SettledAt c post

theorem nextKind?_map_elementOf (f : Forest) (ss : List Shape) :
    Element.nextKind? (ss.map f.elementOf) =
      ((ss.map Shape.id).dropWhile fun d => (f.kind d).isCommentLike).head?.map f.kind := by
  induction ss with
  | nil => rfl
  | cons s ss ih =>
    have hlike : (f.elementOf s).isCommentLike = (f.kind s.id).isCommentLike := by
      rw [Element.isCommentLike, kind_elementOf]
    rw [List.map_cons, List.map_cons]
    cases hs : (f.kind s.id).isCommentLike with
    | true =>
      rw [Element.nextKind?_cons_of_pos (hlike.trans hs),
        List.dropWhile_cons_of_pos (by exact hs), ih]
    | false =>
      rw [Element.nextKind?_cons_of_neg (hlike.trans hs), List.dropWhile_cons_of_neg (by simp [hs]),
        kind_elementOf]
      rfl

theorem Carries.settled (hs : f.Carries s) (h : (f.elementOf s).Settled) : f.Settled s := by
  intro p hp pre c post hsplit hk hends
  obtain ⟨d, ds, rfl, rfl, hplace⟩ := hs.exists_place hp hsplit
  have hsettled := h _ hplace
  rw [Element.SettledAt, kind_elementOf, tail_elementOf, Element.endsLine_eq,
    startsWithComment_map_elementOf, Bool.or_eq_true] at hsettled
  obtain ⟨hcode, hnext⟩ := hsettled hk hends
  refine ⟨hcode, fun b hb => hnext _ ?_⟩
  rw [nextKind?_map_elementOf, hb]
  rfl

/-- Other blanks in tails make no difference. -/
theorem Relaid.settled {inText : Char → Bool} (hr : Relaid inText (fun c => !Text.isBlank c) f g)
    (h : f.Settled s) : g.Settled s := by
  have hkind : ∀ c, g.kind c = f.kind c := fun c => congrArg Kind.ofTag (hr.tag_eq c)
  intro p hp pre c post hsplit hk hends
  rw [hr.children_eq] at hsplit
  rw [hkind] at hk
  have hnewline : Text.hasNewline (g.tail c).toList = Text.hasNewline (f.tail c).toList :=
    Text.hasNewline_of_squeeze (hr.tail_eq c)
  rw [hnewline, beforeComment] at hends
  simp only [hkind] at hends
  obtain ⟨hcode, hnext⟩ := h p hp pre c post hsplit hk hends
  simp only [hkind]
  refine ⟨?_, hnext⟩
  rw [codeFrom_eq_nil_iff] at hcode ⊢
  rw [filter_mono (fun _ => not_isBlank_of_isCode) (hr.tail_eq c), hcode]

end Forest

/-! ## Nothing to insert -/

theorem getElem?_length_takeWhile {α : Type} (p : α → Bool) (xs : List α) :
    xs[(xs.takeWhile p).length]? = (xs.dropWhile p).head? := by
  induction xs with
  | nil => rfl
  | cons x xs ih =>
    by_cases hx : p x = true
    · rw [List.takeWhile_cons_of_pos hx, List.dropWhile_cons_of_pos hx, List.length_cons,
        List.getElem?_cons_succ, ih]
    · rw [List.takeWhile_cons_of_neg hx, List.dropWhile_cons_of_neg hx]
      rfl

theorem isEmpty_takeWhile {α : Type} (p : α → Bool) (xs : List α) :
    (!(xs.takeWhile p).isEmpty) = xs.head?.any p := by
  cases xs with
  | nil => rfl
  | cons x xs =>
    by_cases hx : p x = true
    · rw [List.takeWhile_cons_of_pos hx]
      exact hx.symm
    · rw [List.takeWhile_cons_of_neg hx]
      simpa using hx

namespace MarkerDraft

variable {o : MarkerOptions} {m : MarkerDraft}

/-- Visiting a child with nothing to add after it. -/
theorem reviseChild_of_settled (hrem : ∀ ends, o.removes ends = false) {p c : NodeId}
    {pre post : List NodeId} (hp : m.forest.children p = pre ++ c :: post)
    (h : m.forest.SettledAt c post) : m.reviseChild o p pre.length c = m := by
  rw [reviseChild]
  split
  · rename_i hk
    rw [drop_of_split hp]
    simp only [hrem, Bool.false_eq_true, if_false]
    split
    · rename_i hends
      rw [Bool.and_eq_true, isEmpty_takeWhile, Bool.or_eq_true] at hends
      obtain ⟨hcode, hnext⟩ := h (beq_iff_eq.mp hk) hends.1
      -- Neither place for a marker is there: no code in the tail, and a marker behind the comments.
      have hother : ((post.dropWhile fun d => (m.forest.kind d).isCommentLike).head?.any
          (m.forest.kind · != .continuation)) = false := by
        cases hhead : (post.dropWhile fun d => (m.forest.kind d).isCommentLike).head? with
        | none => rfl
        | some d => simp [hnext d hhead]
      rw [addBegin_eq, hcode, getElem?_length_takeWhile, hother]
      rfl
    · rfl
  · rfl

theorem revise_of_settled (hrem : ∀ ends, o.removes ends = false) {s : Shape}
    (hs : m.forest.Carries s) (h : m.forest.Settled s) : revise o s.id m = m := by
  refine reviseWithin_induct (P := (· = m)) (Q := (· ∈ s.preorder)) ?_ _ rfl s.id_mem_preorder
  rintro m' p pre c post rfl hp hsplit
  refine ⟨reviseChild_of_settled hrem hsplit (h p hp pre c post hsplit), ?_⟩
  exact hs.mem_of_child hp (by rw [hsplit]; exact List.mem_append_right _ List.mem_cons_self)

/-! ## The index -/

/-- The store answers parents from an index, which is not computed. -/
def Unindexed (m : MarkerDraft) : Prop := m.forest.indexes = true ∧ m.forest.index = none

theorem unindexed_addBegin (h : m.Unindexed) (p : NodeId) (k : Nat) (c : NodeId)
    (comments : List NodeId) (next : Option NodeId) :
    (m.addBegin p k c comments next).Unindexed := by
  rw [addBegin_eq]
  split
  · exact ⟨h.1, rfl⟩
  · split
    · split <;> exact ⟨h.1, rfl⟩
    · exact h

theorem unindexed_detach (p c : NodeId) {f : Forest} (hf : f.indexes = true) (hi : f.index = none) :
    (f.detach p c).indexes = true ∧ (f.detach p c).index = none := by
  rw [detach]
  split
  · exact ⟨hf, rfl⟩
  · exact ⟨hf, hi⟩

theorem unindexed_foldl_detach (p : NodeId) (out : List NodeId) {f : Forest} (hf : f.indexes = true)
    (hi : f.index = none) :
    (out.foldl (fun f c => f.detach p c) f).indexes = true ∧
      (out.foldl (fun f c => f.detach p c) f).index = none := by
  induction out generalizing f with
  | nil => exact ⟨hf, hi⟩
  | cons c out ih =>
    obtain ⟨hf', hi'⟩ := unindexed_detach p c hf hi
    exact ih hf' hi'

theorem unindexed_removeMarker (h : m.Unindexed) (p : NodeId) (k : Nat) (c : NodeId)
    (comments : List NodeId) : (m.removeMarker p k c comments).Unindexed := by
  have hout :=
    unindexed_foldl_detach p (comments.reverse.filter (m.forest.kind · != .directive)) h.1 h.2
  rw [removeMarker]
  dsimp only
  generalize (comments.reverse.filter (m.forest.kind · != .directive)).foldl
    (fun f c => f.detach p c) m.forest = f at hout ⊢
  have hdetach := unindexed_detach p c hout.1 hout.2
  split
  · exact hout
  · unfold appendBefore
    split
    · exact hdetach
    · split <;> exact hdetach

theorem unindexed_revise (h : m.Unindexed) (i : NodeId) : (revise o i m).Unindexed := by
  refine reviseWithin_induct (P := Unindexed) (Q := fun _ => True) ?_ _ h trivial
  intro m p pre c post hm _ _
  refine ⟨?_, trivial⟩
  unfold reviseChild
  split
  · have hadd : ∀ (b : Bool) (comments : List NodeId) (next : Option NodeId),
        (if b then m.addBegin p pre.length c comments next else m).Unindexed := by
      intro b comments next
      split
      · exact unindexed_addBegin hm _ _ _ _ _
      · exact hm
    dsimp only
    split
    · exact unindexed_removeMarker (hadd _ _ _) _ _ _ _
    · exact hadd _ _ _
  · exact hm

end MarkerDraft

/-! ## The whole update -/

/-- A tree in a store with its index, after which the markers are settled and the lines aligned. -/
theorem MarkerOptions.apply_of_settled {o : MarkerOptions} (halign : o.align = true)
    (hrem : ∀ ends, o.removes ends = false) {f : Forest} {s : Shape} (hf : f.Holds s)
    (hs : s.id = root) (hi : f.Indexable) (hindex : f.indexed = f) (hsettled : f.Settled s)
    (haligned : f.toElement.aligned = f.toElement) :
    (o.apply root f).forest = f ∧ (o.apply root f).report = {} := by
  have hrevise : MarkerDraft.revise o root { forest := f } = { forest := f } := by
    rw [← hs]
    exact MarkerDraft.revise_of_settled (m := { forest := f }) hrem hf.carries hsettled
  obtain ⟨hforest, hcount⟩ := Alignment.alignBelow_of_aligned hi hf hs haligned
  rw [apply, hrevise, if_pos halign]
  refine ⟨hforest.trans hindex, ?_⟩
  show ({ aligned := _ } : MarkerReport) = {}
  rw [hcount]

/-- A second update with the standard options leaves the tree as it is and reports nothing. -/
theorem updateContinuation_updateContinuation {e : Element} (h : e.Tidy) :
    ∃ m₁ m₂, updateContinuation {} root (ofElement e) = .ok m₁ ∧
      updateContinuation {} root m₁.forest = .ok m₂ ∧
      m₂.forest = m₁.forest ∧ m₂.report = {} := by
  have hrem : ∀ ends, ({} : MarkerOptions).removes ends = false := fun _ => rfl
  obtain ⟨s, hs, hb⟩ := MarkerDraft.revise_spec_root (o := {}) (fun _ => hrem) (holds_ofElement e)
    (e.id_shapeFrom 0)
  have hunindexed := MarkerDraft.unindexed_revise (o := {}) (m := { forest := ofElement e })
    (indexes_ofElement e) root
  have hindexable := indexable_of_none hunindexed.1 hunindexed.2
  have hrelaid := MarkerOptions.relaid_apply {} root (ofElement e)
  have hsettled : (MarkerDraft.revise {} root { forest := ofElement e }).forest.Settled s := by
    refine hb.reshaped.holds.carries.settled ?_
    rw [hb.element_eq, elementOf_ofElement]
    exact (Element.tidy_settled_revised rfl hrem h).2
  obtain ⟨hretailed, haligned⟩ := Alignment.retailed_alignBelow hindexable hb.reshaped.holds hs
  have hcomputed : (MarkerOptions.apply {} root (ofElement e)).forest.index =
      some (Option.getD (MarkerDraft.revise {} root { forest := ofElement e }).forest.index
        (MarkerDraft.revise {} root { forest := ofElement e }).forest.scanParents) := by
    refine hretailed.index_eq.trans ?_
    rw [Forest.indexed, if_pos hunindexed.1]
  refine ⟨_, _, rfl, rfl, ?_⟩
  refine MarkerOptions.apply_of_settled rfl hrem (hrelaid.holds hb.reshaped.holds) hs
    (hretailed.indexable hindexable.indexed) (indexed_of_index hcomputed)
      (hrelaid.settled hsettled) ?_
  refine (congrArg Element.aligned haligned).trans ?_
  rw [Element.aligned_aligned]
  exact haligned.symm

theorem updateContinuation_updateContinuation_commentedArguments :
    commentedArguments.Tidy ∧
      ∃ m₁ m₂, updateContinuation {} root (ofElement commentedArguments) = .ok m₁ ∧
        updateContinuation {} root m₁.forest = .ok m₂ ∧
        m₂.forest = m₁.forest ∧ m₂.report = {} :=
  ⟨by decide +kernel, updateContinuation_updateContinuation (by decide +kernel)⟩

end FortranLayout
