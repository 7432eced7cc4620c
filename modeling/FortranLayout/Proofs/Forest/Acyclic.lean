import FortranLayout.Proofs.Forest.Reshaped
import Mathlib.Logic.Relation

/-!
# Stores without a cycle

Unfolding a store takes as many steps as it has nodes. That is enough when no node of the tree is
below itself: a way down from the root meets no node twice, so it has at most as many nodes as the
store (`Forest.Acyclic.carries_shape`). Then the shape of the tree does not depend on the number of
steps, and it is the same in a store with more nodes (`Forest.Acyclic.shape_congr`). Conversely a
store that carries a shape at its root has no cycle there (`Forest.Carries.acyclic`).
-/

namespace FortranLayout

namespace Forest

variable {f g : Forest} {s t : Shape} {i j : Nat}

/-- `j` is one of the children of `i`. -/
def HasChild (f : Forest) (i j : NodeId) : Prop := j ∈ f.children i

/-- No node of the tree is below itself. What is outside the tree does not matter. -/
def Acyclic (f : Forest) : Prop :=
  ∀ i, Relation.ReflTransGen f.HasChild root i → ¬ Relation.TransGen f.HasChild i i

/-- The root is in the store, and so is every child of a node. -/
structure Closed (f : Forest) : Prop where
  root_lt : root < f.size
  child_lt : ∀ {p c : NodeId}, c ∈ f.children p → c < f.size

theorem acyclic_congr (h : ∀ p, g.children p = f.children p) : g.Acyclic ↔ f.Acyclic := by
  have hchild : g.HasChild = f.HasChild := by
    funext p c
    rw [HasChild, HasChild, h]
  rw [Acyclic, Acyclic, hchild]

/-! ## Unfolding far enough -/

@[simp] theorem id_shapeWithin (f : Forest) (fuel : Nat) (i : NodeId) :
    (f.shapeWithin fuel i).id = i := by
  cases fuel <;> rfl

theorem height_shapeWithin_le (f : Forest) (fuel : Nat) (i : NodeId) :
    (f.shapeWithin fuel i).height ≤ fuel + 1 := by
  induction fuel generalizing i with
  | zero => simp [shapeWithin, Shape.height, Shape.heights]
  | succ fuel ih =>
    rw [shapeWithin, Shape.height]
    have hbelow : Shape.heights ((f.children i).map (f.shapeWithin fuel)) ≤ fuel + 1 := by
      refine Shape.heights_le fun c hc => ?_
      obtain ⟨j, _, rfl⟩ := List.mem_map.mp hc
      exact ih j
    omega

/-- A way down from the root to `i` through the nodes of `path`, the nearest first, that meets no
node twice. -/
structure WayDown (f : Forest) (i : NodeId) (path : List NodeId) : Prop where
  nodup : (i :: path).Nodup
  lt_size : ∀ j ∈ i :: path, j < f.size
  below : ∀ j ∈ path, Relation.TransGen f.HasChild j i
  attached : Relation.ReflTransGen f.HasChild root i

theorem Closed.wayDown_root (hc : f.Closed) : f.WayDown root [] :=
  ⟨by simp, by simpa using hc.root_lt, by simp, .refl⟩

theorem WayDown.child {path : List NodeId} (h : f.WayDown i path) (hc : f.Closed) (ha : f.Acyclic)
    (hj : j ∈ f.children i) : f.WayDown j (i :: path) := by
  have hbelow : ∀ k ∈ i :: path, Relation.TransGen f.HasChild k j :=
    List.forall_mem_cons.mpr ⟨.single hj, fun k hk => (h.below k hk).tail hj⟩
  have hattached : Relation.ReflTransGen f.HasChild root j := h.attached.tail hj
  have hnew : j ∉ i :: path := fun hm => ha j hattached (hbelow j hm)
  exact ⟨List.nodup_cons.mpr ⟨hnew, h.nodup⟩, List.forall_mem_cons.mpr ⟨hc.child_lt hj, h.lt_size⟩,
    hbelow, hattached⟩

theorem WayDown.length_lt {path : List NodeId} (h : f.WayDown i path) : path.length < f.size := by
  have hsub : i :: path ⊆ List.range f.size := fun j hj => List.mem_range.mpr (h.lt_size j hj)
  have hle := (h.nodup.subperm hsub).length_le
  rw [List.length_cons, List.length_range] at hle
  exact hle

/-- With as many steps left as there are nodes off the way, everything below is unfolded. -/
theorem WayDown.carries_shapeWithin {path : List NodeId} {fuel : Nat} (h : f.WayDown i path)
    (hc : f.Closed) (ha : f.Acyclic) (hfuel : fuel + path.length = f.size) :
    f.Carries (f.shapeWithin fuel i) := by
  induction fuel generalizing i path with
  | zero =>
    have := h.length_lt
    omega
  | succ fuel ih =>
    rw [shapeWithin]
    refine carries_node.mpr ⟨h.lt_size i List.mem_cons_self, ?_, fun b hb => ?_⟩
    · rw [List.map_map]
      exact (List.map_id'' (fun c => id_shapeWithin f fuel c) _).symm
    · obtain ⟨c, hci, rfl⟩ := List.mem_map.mp hb
      exact ih (h.child hc ha hci) (by rw [List.length_cons]; omega)

theorem Acyclic.carries_shape (ha : f.Acyclic) (hc : f.Closed) : f.Carries (f.shape root) :=
  hc.wayDown_root.carries_shapeWithin hc ha rfl

/-- In a store with the same children and more nodes the tree has the same shape. -/
theorem Acyclic.shape_congr (ha : f.Acyclic) (hc : f.Closed) (hsize : f.size ≤ g.size)
    (hchildren : ∀ p, g.children p = f.children p) : g.shape root = f.shape root := by
  have hcarries : g.Carries (f.shape root) :=
    (ha.carries_shape hc).congr_children hsize fun j _ => hchildren j
  have hheight : (f.shape root).height ≤ g.size + 1 := by
    have := height_shapeWithin_le f f.size root
    rw [shape]
    omega
  have heq := shapeWithin_eq hcarries hheight
  rwa [shape, id_shapeWithin] at heq

/-! ## A carried shape has no cycle -/

/-- A store carries at most one shape at a node. -/
theorem Carries.eq_of_id (hs : f.Carries s) (ht : f.Carries t) (hid : s.id = t.id) : s = t := by
  have hs' : f.shapeWithin (s.height + t.height) s.id = s := shapeWithin_eq hs (by omega)
  have ht' : f.shapeWithin (s.height + t.height) t.id = t := shapeWithin_eq ht (by omega)
  rw [← hs', hid, ht']

/-- Going down, the carried shapes get lower. -/
theorem Carries.exists_lower (hs : f.Carries s) (h : Relation.TransGen f.HasChild s.id j) :
    ∃ t, f.Carries t ∧ t.id = j ∧ t.height < s.height := by
  have hchild : ∀ {u : Shape} {c : Nat}, f.Carries u → f.HasChild u.id c →
      ∃ t, f.Carries t ∧ t.id = c ∧ t.height < u.height := by
    intro u c hu hc
    obtain ⟨i, cs⟩ := u
    obtain ⟨_, hids, hcs⟩ := carries_node.mp hu
    rw [HasChild, Shape.id_node, hids] at hc
    obtain ⟨t, ht, rfl⟩ := List.mem_map.mp hc
    exact ⟨t, hcs t ht, rfl, Shape.height_child_lt _ ht⟩
  induction h with
  | single hc => exact hchild hs hc
  | tail _ hc ih =>
    obtain ⟨u, hu, rfl, hlt⟩ := ih
    obtain ⟨t, ht, hid, hlt'⟩ := hchild hu hc
    exact ⟨t, ht, hid, Nat.lt_trans hlt' hlt⟩

theorem Carries.acyclic (hs : f.Carries s) (hid : s.id = root) : f.Acyclic := by
  intro i hi hcycle
  obtain ⟨t, ht, rfl⟩ : ∃ t, f.Carries t ∧ t.id = i := by
    rcases Relation.reflTransGen_iff_eq_or_transGen.mp hi with rfl | hdown
    · exact ⟨s, hs, hid⟩
    · obtain ⟨t, ht, hid', _⟩ := hs.exists_lower (hid ▸ hdown)
      exact ⟨t, ht, hid'⟩
  obtain ⟨u, hu, hid', hlt⟩ := ht.exists_lower hcycle
  rw [hu.eq_of_id ht hid'] at hlt
  exact Nat.lt_irrefl _ hlt

end Forest

end FortranLayout
