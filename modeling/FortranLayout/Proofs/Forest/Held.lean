import FortranLayout.Proofs.Forest.Edits
import Mathlib.Data.List.Nodup
import Mathlib.Data.List.Perm.Subperm

/-!
# Trees held by a store

A store may have nodes below several parents. It *holds* a shape when the children it has below each
node of the shape are those of the shape and no node occurs twice in it. Then

* the shape is found again by unfolding the store (`Forest.Holds.shape_eq`), and
* what the shape denotes depends on its own nodes only (`Forest.Carries.elementOf_congr`), so an
  edit elsewhere leaves it alone.
-/

namespace FortranLayout

namespace Shape

/-- Induction over shapes: each node after its children. -/
theorem induct {P : Shape → Prop} (h : ∀ i cs, (∀ c ∈ cs, P c) → P (.node i cs)) : ∀ s, P s
  | .node i cs => h i cs fun c _ => induct h c

@[simp] theorem preorders_eq (ss : List Shape) : preorders ss = ss.flatMap preorder := by
  induction ss with
  | nil => rfl
  | cons s ss ih => simp [preorders, ih]

@[simp] theorem preorder_node (i : Nat) (cs : List Shape) :
    (node i cs).preorder = i :: cs.flatMap preorder := by
  simp [preorder]

@[simp] theorem id_node (i : Nat) (cs : List Shape) : (node i cs).id = i := rfl

theorem id_mem_preorder (s : Shape) : s.id ∈ s.preorder := by
  cases s
  simp

/-- The top of one of several shapes is among their nodes. -/
theorem id_mem_flatMap {s : Shape} {ss : List Shape} (h : s ∈ ss) :
    s.id ∈ ss.flatMap preorder :=
  List.mem_flatMap.mpr ⟨s, h, s.id_mem_preorder⟩

/-- The nodes of a child are among those of the shape. -/
theorem preorder_subset (i : Nat) {c : Shape} {cs : List Shape} (h : c ∈ cs) :
    c.preorder ⊆ (node i cs).preorder := fun j hj => by
  rw [preorder_node]
  exact List.mem_cons_of_mem _ (List.mem_flatMap.mpr ⟨c, h, hj⟩)

/-- The tops of shapes without a common node differ. -/
theorem nodup_map_id {ss : List Shape} (h : (ss.flatMap preorder).Nodup) : (ss.map id).Nodup := by
  induction ss with
  | nil => simp
  | cons s ss ih =>
    rw [List.flatMap_cons, List.nodup_append'] at h
    obtain ⟨_, hss, hd⟩ := h
    rw [List.map_cons, List.nodup_cons]
    refine ⟨fun hm => ?_, ih hss⟩
    obtain ⟨t, ht, he⟩ := List.mem_map.mp hm
    exact hd s.id_mem_preorder (he ▸ id_mem_flatMap ht)

/-- Of several shapes without a common node, only one has a given node. -/
theorem eq_of_common_node {s t : Shape} {ss : List Shape} (hn : (ss.flatMap preorder).Nodup)
    (hs : s ∈ ss) (ht : t ∈ ss) {j : Nat} (hjs : j ∈ s.preorder) (hjt : j ∈ t.preorder) :
    s = t := by
  induction ss with
  | nil => cases hs
  | cons r ss ih =>
    rw [List.flatMap_cons, List.nodup_append'] at hn
    obtain ⟨_, hss, hd⟩ := hn
    rcases List.mem_cons.mp hs with rfl | hs'
    · rcases List.mem_cons.mp ht with rfl | ht'
      · rfl
      · exact absurd (List.mem_flatMap.mpr ⟨t, ht', hjt⟩) (hd hjs)
    · rcases List.mem_cons.mp ht with rfl | ht'
      · exact absurd (List.mem_flatMap.mpr ⟨s, hs', hjs⟩) (hd hjt)
      · exact ih hss hs' ht'

mutual

/-- The number of nodes on the longest way down. -/
def height : Shape → Nat
  | node _ cs => heights cs + 1

/-- The greatest height in a list of shapes. -/
def heights : List Shape → Nat
  | [] => 0
  | s :: ss => max (height s) (heights ss)

end

theorem height_le_heights {s : Shape} {ss : List Shape} (h : s ∈ ss) : s.height ≤ heights ss := by
  induction ss with
  | nil => simp at h
  | cons t ss ih =>
    rw [heights]
    rcases List.mem_cons.mp h with rfl | h
    · exact Nat.le_max_left _ _
    · exact Nat.le_trans (ih h) (Nat.le_max_right _ _)

theorem height_child_lt (i : Nat) {c : Shape} {cs : List Shape} (h : c ∈ cs) :
    c.height < (node i cs).height := by
  rw [height]
  exact Nat.lt_succ_of_le (height_le_heights h)

theorem heights_le {ss : List Shape} {n : Nat} (h : ∀ s ∈ ss, s.height ≤ n) : heights ss ≤ n := by
  induction ss with
  | nil => simp [heights]
  | cons s ss ih =>
    rw [heights]
    exact Nat.max_le.mpr ⟨h s List.mem_cons_self, ih fun t ht => h t (List.mem_cons_of_mem _ ht)⟩

/-- No way down has more nodes than the shape. -/
theorem height_le_length_preorder (s : Shape) : s.height ≤ s.preorder.length := by
  induction s using induct with
  | h i cs ih =>
    have hcs : heights cs ≤ (cs.flatMap preorder).length := by
      refine heights_le fun c hc => Nat.le_trans (ih c hc) ?_
      exact (List.sublist_flatten_of_mem (List.mem_map_of_mem hc)).length_le
    rw [height, preorder_node, List.length_cons]
    omega

end Shape

/-- The kind of an element is the kind of its tag. -/
def Element.kind (e : Element) : Kind := Kind.ofTag e.tag

namespace Forest

variable {f g : Forest} {s : Shape} {i : Nat}

/-! ## Elements of shapes -/

@[simp] theorem elementsOf_eq (f : Forest) (ss : List Shape) :
    f.elementsOf ss = ss.map f.elementOf := by
  induction ss with
  | nil => rfl
  | cons s ss ih => simp [elementsOf, ih]

@[simp] theorem elementOf_node (f : Forest) (i : Nat) (cs : List Shape) :
    f.elementOf (.node i cs) = ⟨f.tag i, f.text i, f.tail i, cs.map f.elementOf⟩ := by
  simp [elementOf]

theorem kind_elementOf (f : Forest) (s : Shape) : (f.elementOf s).kind = f.kind s.id := by
  cases s
  simp [Element.kind, kind, Node.kind, tag]

theorem text_elementOf (f : Forest) (s : Shape) : (f.elementOf s).text = f.text s.id := by
  cases s
  simp

theorem tail_elementOf (f : Forest) (s : Shape) : (f.elementOf s).tail = f.tail s.id := by
  cases s
  simp

/-! ## Carried shapes -/

mutual

/-- Below each node of the shape the store has the nodes that the shape has there. -/
def Carries (f : Forest) : Shape → Prop
  | .node i cs => i < f.size ∧ f.children i = cs.map Shape.id ∧ f.CarriesAll cs

/-- The store carries each of the shapes. -/
def CarriesAll (f : Forest) : List Shape → Prop
  | [] => True
  | s :: ss => f.Carries s ∧ f.CarriesAll ss

end

@[simp] theorem carriesAll_iff {ss : List Shape} : f.CarriesAll ss ↔ ∀ s ∈ ss, f.Carries s := by
  induction ss with
  | nil => simp [CarriesAll]
  | cons s ss ih => simp [CarriesAll, ih]

theorem carries_node {cs : List Shape} :
    f.Carries (.node i cs) ↔
      i < f.size ∧ f.children i = cs.map Shape.id ∧ ∀ c ∈ cs, f.Carries c := by
  simp [Carries]

namespace Carries

theorem mem_lt (h : f.Carries s) : ∀ j : Nat, j ∈ s.preorder → j < f.size := by
  induction s using Shape.induct with
  | h i cs ih =>
    obtain ⟨hi, _, hcs⟩ := carries_node.mp h
    intro j hj
    rw [Shape.preorder_node, List.mem_cons, List.mem_flatMap] at hj
    rcases hj with rfl | ⟨c, hc, hj⟩
    · exact hi
    · exact ih c hc (hcs c hc) j hj

theorem id_lt (h : f.Carries s) : s.id < f.size := h.mem_lt _ s.id_mem_preorder

/-- A shape stays in a store that has the same nodes where the shape is. -/
theorem congr (h : f.Carries s) (hsize : f.size ≤ g.size)
    (hg : ∀ j : Nat, j ∈ s.preorder → g.node j = f.node j) : g.Carries s := by
  induction s using Shape.induct with
  | h i cs ih =>
    obtain ⟨hi, hc, hcs⟩ := carries_node.mp h
    refine carries_node.mpr ⟨Nat.lt_of_lt_of_le hi hsize, ?_, fun c hm => ?_⟩
    · rw [← hc]
      exact congrArg Node.children (hg i (by simp))
    · exact ih c hm (hcs c hm) fun j hj => hg j (Shape.preorder_subset i hm hj)

end Carries

/-- What a shape denotes depends on its own nodes only. -/
theorem elementOf_congr (hg : ∀ j : Nat, j ∈ s.preorder → g.node j = f.node j) :
    g.elementOf s = f.elementOf s := by
  induction s using Shape.induct with
  | h i cs ih =>
    have hi := hg i (by simp)
    simp only [elementOf_node, tag, text, tail, hi, Element.mk.injEq, true_and]
    exact List.map_congr_left fun c hc => ih c hc fun j hj => hg j (Shape.preorder_subset i hc hj)

/-- A change to the top node only. -/
theorem elementOf_of_below {cs : List Shape}
    (h : ∀ j : Nat, j ∈ cs.flatMap Shape.preorder → g.node j = f.node j) :
    g.elementOf (.node i cs) = ⟨g.tag i, g.text i, g.tail i, cs.map f.elementOf⟩ := by
  simp only [elementOf_node, Element.mk.injEq, true_and]
  exact List.map_congr_left fun c hc =>
    elementOf_congr fun j hj => h j (List.mem_flatMap.mpr ⟨c, hc, hj⟩)

/-! ## Held shapes -/

/-- The store carries the shape, and no node occurs twice in it. -/
structure Holds (f : Forest) (s : Shape) : Prop where
  carries : f.Carries s
  nodup : s.preorder.Nodup

theorem shapeWithin_eq (h : f.Carries s) {fuel : Nat} (hf : s.height ≤ fuel + 1) :
    f.shapeWithin fuel s.id = s := by
  induction s using Shape.induct generalizing fuel with
  | h i cs ih =>
    obtain ⟨_, hc, hcs⟩ := carries_node.mp h
    rw [Shape.height] at hf
    cases fuel with
    | zero =>
      have : cs = [] := by
        cases cs with
        | nil => rfl
        | cons c cs =>
          cases c
          simp only [Shape.heights, Shape.height] at hf
          omega
      simp [shapeWithin, this]
    | succ fuel =>
      simp only [shapeWithin, Shape.id_node, hc, List.map_map, Shape.node.injEq, true_and]
      conv_rhs => rw [← List.map_id cs]
      refine List.map_congr_left fun c hm => ?_
      have := Shape.height_le_heights hm
      exact ih c hm (hcs c hm) (by omega)

namespace Holds

theorem length_preorder_le (h : f.Holds s) : s.preorder.length ≤ f.size := by
  have hsub : s.preorder ⊆ List.range f.size := fun j hj =>
    List.mem_range.mpr (h.carries.mem_lt j hj)
  simpa using (h.nodup.subperm hsub).length_le

theorem height_le (h : f.Holds s) : s.height ≤ f.size :=
  Nat.le_trans s.height_le_length_preorder h.length_preorder_le

/-- Unfolding the store finds the shape again. -/
theorem shape_eq (h : f.Holds s) : f.shape s.id = s :=
  shapeWithin_eq h.carries (Nat.le_succ_of_le h.height_le)

theorem toElement_eq (h : f.Holds s) (hs : s.id = root) : f.toElement = f.elementOf s := by
  rw [toElement, element, ← hs, h.shape_eq]

theorem preorder_eq (h : f.Holds s) (hs : s.id = root) : f.preorder = s.preorder := by
  rw [preorder, descendants, ← hs, h.shape_eq]

end Holds

end Forest

end FortranLayout
