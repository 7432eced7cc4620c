import FortranLayout.Proofs.Comments.Stripping
import FortranLayout.Proofs.Forest.Reshaped

/-!
# Shapes without some of their nodes

Nodes are taken out of a shape together with all that is below them (`Shape.without`); those taken
out that are below no other are the outermost ones (`Shape.outermost`). In a store that holds the
shape, what is left are the nodes that no node taken out has below it, in their order
(`preorder_without`), and the outermost nodes are those that none but themselves has
(`outermost_eq`).
-/

namespace FortranLayout

namespace Shape

variable {P : NodeId → Bool} {i : NodeId} {s : Shape} {cs : List Shape}

mutual

/-- The shape without the nodes below its top for which `P` holds. -/
def without (P : NodeId → Bool) : Shape → Shape
  | node i cs => node i (withoutAll P cs)

/-- The shapes of which the top is not taken out, without the nodes below. -/
def withoutAll (P : NodeId → Bool) : List Shape → List Shape
  | [] => []
  | s :: ss => if P s.id then withoutAll P ss else without P s :: withoutAll P ss

end

mutual

/-- The nodes that are taken out below the top, each with what is below it. -/
def outermost (P : NodeId → Bool) : Shape → List NodeId
  | node _ cs => outermostAll P cs

/-- The nodes that are taken out of a list of shapes. -/
def outermostAll (P : NodeId → Bool) : List Shape → List NodeId
  | [] => []
  | s :: ss => (if P s.id then [s.id] else outermost P s) ++ outermostAll P ss

end

@[simp] theorem id_without (P : NodeId → Bool) (s : Shape) : (s.without P).id = s.id := by
  cases s
  rfl

/-- The nodes of a list of shapes that are left. -/
theorem preorder_withoutAll (P : NodeId → Bool) (cs : List Shape) :
    (withoutAll P cs).flatMap preorder = cs.flatMap fun c => if P c.id then []
      else (c.without P).preorder := by
  induction cs with
  | nil => rfl
  | cons c cs ih =>
    rw [withoutAll, List.flatMap_cons]
    split
    · rw [ih, List.nil_append]
    · rw [List.flatMap_cons, ih]

theorem map_id_withoutAll (P : NodeId → Bool) (cs : List Shape) :
    (withoutAll P cs).map id = (cs.map id).filter (!P ·) := by
  induction cs with
  | nil => rfl
  | cons c cs ih => cases hc : P c.id <;> simp [withoutAll, hc, ih]

theorem mem_withoutAll {t : Shape} :
    t ∈ withoutAll P cs ↔ ∃ c ∈ cs, P c.id = false ∧ c.without P = t := by
  induction cs with
  | nil => simp [withoutAll]
  | cons c cs ih =>
    rw [withoutAll]
    cases hc : P c.id with
    | true => simp [hc, ih]
    | false => simp [hc, ih, eq_comm (a := t)]

theorem outermostAll_eq (P : NodeId → Bool) (cs : List Shape) :
    outermostAll P cs = cs.flatMap fun c => if P c.id then [c.id] else c.outermost P := by
  induction cs with
  | nil => rfl
  | cons c cs ih => rw [outermostAll, List.flatMap_cons, ih]

theorem tail_preorder_node (i : NodeId) (cs : List Shape) :
    (node i cs).preorder.tail = cs.flatMap preorder := by
  simp

theorem preorder_eq_cons (s : Shape) : s.preorder = s.id :: s.preorder.tail := by
  cases s
  simp

/-- What is left below the top is what was to be left. -/
theorem not_of_mem_tail_without (hi : i ∈ (s.without P).preorder.tail) : P i = false := by
  induction s using induct with
  | h p cs ih =>
    rw [without, tail_preorder_node, List.mem_flatMap] at hi
    obtain ⟨t, ht, hi⟩ := hi
    obtain ⟨c, hc, hP, rfl⟩ := mem_withoutAll.mp ht
    rw [preorder_eq_cons, id_without, List.mem_cons] at hi
    rcases hi with rfl | hi
    · exact hP
    · exact ih c hc hi

end Shape

namespace Forest

variable {f g : Forest} {P : NodeId → Bool} {s c : Shape} {cs : List Shape} {p i j : NodeId}

/-! ## Below one node -/

/-- What the store has below a node of a shape is part of the shape. -/
theorem Holds.descendants_subset (hs : f.Holds s) (hj : j ∈ s.preorder) :
    f.descendants j ⊆ s.preorder := by
  obtain ⟨t, rfl, ht, hsub⟩ := hs.exists_below hj
  rwa [descendants, ht.shape_eq]

/-- Only the top of a shape has the top below it. -/
theorem Holds.eq_of_id_mem_descendants (hs : f.Holds s) (hj : j ∈ s.preorder)
    (htop : s.id ∈ f.descendants j) :
    j = s.id := by
  obtain ⟨p, cs⟩ := s
  rw [Shape.preorder_node, List.mem_cons, List.mem_flatMap] at hj
  rcases hj with rfl | ⟨c, hc, hj⟩
  · rfl
  · exact absurd ((hs.child hc).descendants_subset hj htop) (hs.top_not_mem hc)

/-- A node below one child of a shape is below no node of another. -/
theorem Holds.mem_of_mem_descendants (hs : f.Holds (.node p cs)) (hc : c ∈ cs) (hi : i ∈ c.preorder)
    (hj : j ∈ cs.flatMap Shape.preorder) (hij : i ∈ f.descendants j) : j ∈ c.preorder := by
  obtain ⟨d, hd, hj⟩ := List.mem_flatMap.mp hj
  obtain ⟨-, -, -, -, hnodup⟩ := holds_node.mp hs
  rwa [Shape.eq_of_common_node hnodup hc hd hi ((hs.child hd).descendants_subset hj hij)]

/-! ## What is left -/

/-- Whether `P` holds for node `i` or for one of `nodes` that has it below. -/
def Covered (f : Forest) (P : NodeId → Bool) (nodes : List NodeId) (i : NodeId) : Prop :=
  ∃ c ∈ nodes, P c = true ∧ i ∈ f.descendants c

instance {nodes : List NodeId} : DecidablePred (f.Covered P nodes) := fun i =>
  inferInstanceAs (Decidable (∃ c ∈ nodes, P c = true ∧ i ∈ f.descendants c))

theorem Holds.covered_child (hs : f.Holds (.node p cs)) (hc : c ∈ cs) (hi : i ∈ c.preorder) :
    f.Covered P (cs.flatMap Shape.preorder) i ↔ P c.id = true ∨ f.Covered P c.preorder.tail i := by
  have htop : f.descendants c.id = c.preorder := congrArg Shape.preorder (hs.child hc).shape_eq
  rw [Covered]
  constructor
  · rintro ⟨j, hj, hPj, hij⟩
    have hjc := hs.mem_of_mem_descendants hc hi hj hij
    rw [c.preorder_eq_cons, List.mem_cons] at hjc
    rcases hjc with rfl | hjc
    · exact .inl hPj
    · exact .inr ⟨j, hjc, hPj, hij⟩
  · rintro (hPc | ⟨j, hj, hPj, hij⟩)
    · exact ⟨c.id, Shape.id_mem_flatMap hc, hPc, htop ▸ hi⟩
    · exact ⟨j, List.mem_flatMap.mpr ⟨c, hc, List.mem_of_mem_tail hj⟩, hPj, hij⟩

theorem Holds.not_covered_top (hs : f.Holds s) : ¬f.Covered P s.preorder.tail s.id := by
  rintro ⟨j, hj, -, hij⟩
  obtain rfl := hs.eq_of_id_mem_descendants (List.mem_of_mem_tail hj) hij
  have hnodup := hs.nodup
  rw [s.preorder_eq_cons] at hnodup
  exact (List.nodup_cons.mp hnodup).1 hj

/-- What is left are the nodes that are not taken out, in their order. -/
theorem Holds.preorder_without (hs : f.Holds s) (P : NodeId → Bool) :
    (s.without P).preorder = s.preorder.filter fun i => ¬f.Covered P s.preorder.tail i := by
  induction s using Shape.induct with
  | h p cs ih =>
    have hchild : ∀ c ∈ cs,
        (c.preorder.filter fun i => ¬f.Covered P (cs.flatMap Shape.preorder) i) =
        if P c.id then [] else (c.without P).preorder := by
      intro c hc
      split
      · rename_i hPc
        refine List.filter_eq_nil_iff.mpr fun i hi huncovered => ?_
        exact of_decide_eq_true huncovered ((hs.covered_child hc hi).mpr (.inl hPc))
      · rename_i hPc
        rw [ih c hc (hs.child hc)]
        refine List.filter_congr fun i hi => decide_eq_decide.mpr (not_congr ?_)
        exact (hs.covered_child hc hi).trans (or_iff_right hPc)
    have htop := hs.not_covered_top (P := P)
    rw [Shape.tail_preorder_node, Shape.id_node] at htop
    rw [Shape.tail_preorder_node]
    rw [Shape.without, Shape.preorder_node, Shape.preorder_withoutAll, Shape.preorder_node,
      List.filter_cons_of_pos (by simpa using htop), List.filter_flatMap, List.flatMap_congr hchild]

/-- Below each node that is left the store has its children that are not taken out. -/
theorem Carries.children_without (hf : f.Carries s) (hg : g.Carries (s.without P))
    (hi : i ∈ (s.without P).preorder) :
    g.children i = (f.children i).filter (!P ·) := by
  induction s using Shape.induct with
  | h p cs ih =>
    obtain ⟨-, hchildren, hcs⟩ := carries_node.mp hf
    rw [Shape.without] at hg hi
    obtain ⟨-, hleft, hlefts⟩ := carries_node.mp hg
    rw [Shape.preorder_node, List.mem_cons, List.mem_flatMap] at hi
    rcases hi with rfl | ⟨t, ht, hi⟩
    · rw [hleft, hchildren, Shape.map_id_withoutAll]
    · obtain ⟨c, hc, -, rfl⟩ := Shape.mem_withoutAll.mp ht
      exact ih c hc (hcs c hc) (hlefts _ ht) hi

/-! ## What is taken out -/

/-- Whether `P` holds for node `i`, and of `nodes` for no other that has it below. -/
def Uppermost (f : Forest) (P : NodeId → Bool) (nodes : List NodeId) (i : NodeId) : Prop :=
  P i = true ∧ ∀ c ∈ nodes, P c = true → i ∈ f.descendants c → c = i

instance {nodes : List NodeId} : DecidablePred (f.Uppermost P nodes) := fun i =>
  inferInstanceAs (Decidable (P i = true ∧ ∀ c ∈ nodes, P c = true → i ∈ f.descendants c → c = i))

theorem Holds.uppermost_child (hs : f.Holds (.node p cs)) (hc : c ∈ cs) (hi : i ∈ c.preorder) :
    f.Uppermost P (cs.flatMap Shape.preorder) i ↔
      if P c.id then i = c.id else f.Uppermost P c.preorder.tail i := by
  have hheld := hs.child hc
  have htop : f.descendants c.id = c.preorder := congrArg Shape.preorder hheld.shape_eq
  rw [Uppermost]
  split
  · rename_i hPc
    constructor
    · rintro ⟨-, hnone⟩
      exact (hnone c.id (Shape.id_mem_flatMap hc) hPc (htop ▸ hi)).symm
    · rintro rfl
      refine ⟨hPc, fun j hj _ hij => ?_⟩
      exact hheld.eq_of_id_mem_descendants (hs.mem_of_mem_descendants hc hi hj hij) hij
  · rename_i hPc
    refine and_congr_right fun _ => ⟨fun hnone j hj => ?_, fun hnone j hj hPj hij => ?_⟩
    · exact hnone j (List.mem_flatMap.mpr ⟨c, hc, List.mem_of_mem_tail hj⟩)
    · have hjc := hs.mem_of_mem_descendants hc hi hj hij
      rw [c.preorder_eq_cons, List.mem_cons] at hjc
      rcases hjc with rfl | hjc
      · exact absurd hPj hPc
      · exact hnone j hjc hPj hij

/-- The outermost nodes are those taken out that are below no other. -/
theorem Holds.outermost_eq (hs : f.Holds s) (P : NodeId → Bool) :
    s.outermost P = s.preorder.tail.filter fun i => f.Uppermost P s.preorder.tail i := by
  induction s using Shape.induct with
  | h p cs ih =>
    have hchild : ∀ c ∈ cs,
        (c.preorder.filter fun i => f.Uppermost P (cs.flatMap Shape.preorder) i) =
        if P c.id then [c.id] else c.outermost P := by
      intro c hc
      have hiff : ∀ i ∈ c.preorder, f.Uppermost P (cs.flatMap Shape.preorder) i ↔ _ := fun i hi =>
        hs.uppermost_child hc hi
      have hnodup := (hs.child hc).nodup
      rw [c.preorder_eq_cons, List.nodup_cons] at hnodup
      rw [c.preorder_eq_cons] at hiff ⊢
      obtain ⟨hfirst, hrest⟩ := List.forall_mem_cons.mp hiff
      split
      · rename_i hPc
        rw [if_pos hPc] at hfirst
        simp only [if_pos hPc] at hrest
        have hupper := hfirst.mpr rfl
        have hnone : ∀ i ∈ c.preorder.tail, ¬f.Uppermost P (cs.flatMap Shape.preorder) i := by
          intro i hi hupper
          obtain rfl := (hrest i hi).mp hupper
          exact hnodup.1 hi
        rw [List.filter_cons_of_pos (by simpa using hupper),
          List.filter_eq_nil_iff.mpr (by simpa using hnone)]
      · rename_i hPc
        simp only [if_neg hPc] at hrest
        have hupper : ¬f.Uppermost P (cs.flatMap Shape.preorder) c.id := fun h => hPc h.1
        rw [List.filter_cons_of_neg (by simpa using hupper), ih c hc (hs.child hc)]
        exact List.filter_congr fun i hi => decide_eq_decide.mpr (hrest i hi)
    rw [Shape.outermost, Shape.outermostAll_eq, Shape.tail_preorder_node, List.filter_flatMap,
      List.flatMap_congr hchild]

end Forest

end FortranLayout
