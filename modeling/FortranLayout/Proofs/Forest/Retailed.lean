import FortranLayout.Proofs.Forest.Parents
import FortranLayout.Proofs.Relaid

/-!
# Stores with other tails

The passes over line starts change nothing of the store but tails: it is *retailed*. So every node
keeps its parent and its kind, and what the nodes outside the change denote.
-/

namespace FortranLayout

/-! ## Stores with the same children -/

namespace Forest

variable {f g : Forest}

theorem preorder_congr (hsize : g.size = f.size) (hchildren : ∀ i, g.children i = f.children i) :
    g.preorder = f.preorder := by
  rw [preorder, preorder, descendants, descendants, shape, shape, hsize,
    shapeWithin_congr hchildren]

theorem scanParents_congr (hsize : g.size = f.size) (hchildren : ∀ i, g.children i = f.children i) :
    g.scanParents = f.scanParents := by
  have hedges : g.edges = f.edges := by
    rw [edges, edges, preorder_congr hsize hchildren]
    exact List.flatMap_congr fun p _ => by rw [hchildren p]
  rw [scanParents, scanParents, hedges, hsize]

theorem parent?_congr (hsize : g.size = f.size) (hchildren : ∀ i, g.children i = f.children i)
    (hindexes : g.indexes = f.indexes) (hindex : g.index = f.index) (i : Nat) :
    g.parent? i = f.parent? i := by
  have hwalk : g.walkToParent? i = f.walkToParent? i := by
    rw [walkToParent?, walkToParent?, preorder_congr hsize hchildren]
    congr 1
    funext p
    rw [hchildren p]
  rw [parent?, parent?, hindexes, hindex, scanParents_congr hsize hchildren, hwalk]

/-- Computing the index leaves it up to date. -/
theorem Indexable.indexed (hi : f.Indexable) : f.indexed.Indexable := by
  have hscan : f.indexed.scanParents = f.scanParents :=
    scanParents_congr (size_indexed f) fun i => congrArg Node.children (node_indexed f i)
  refine ⟨?_, fun a ha => ?_⟩
  · rw [Forest.indexed, if_pos hi.1]
    exact hi.1
  · rw [Forest.indexed, if_pos hi.1, hi.getD_index] at ha
    rw [hscan]
    exact (Option.some.inj ha).symm

/-- The index is computed once. -/
theorem indexed_of_index {a : Array (Option NodeId)} (h : f.index = some a) : f.indexed = f := by
  rw [Forest.indexed]
  split
  · obtain ⟨nodes, indexes, index⟩ := f
    subst h
    rfl
  · rfl

end Forest

/-! ## Stores with other tails -/

/-- `g` is `f` with other tails at some of the nodes `js`. -/
structure Forest.Retailed (f g : Forest) (js : List Nat) : Prop where
  size_eq : g.size = f.size
  indexes_eq : g.indexes = f.indexes
  index_eq : g.index = f.index
  node_eq : ∀ j : Nat, g.node j = { f.node j with tail := g.tail j }
  frame : ∀ j : Nat, j ∉ js → g.node j = f.node j

namespace Forest.Retailed

variable {f g h : Forest} {js ks : List Nat} {s : Shape}

theorem refl (f : Forest) (js : List Nat) : f.Retailed f js :=
  ⟨rfl, rfl, rfl, fun _ => rfl, fun _ _ => rfl⟩

theorem mono (hr : f.Retailed g js) (hsub : js ⊆ ks) : f.Retailed g ks :=
  ⟨hr.size_eq, hr.indexes_eq, hr.index_eq, hr.node_eq,
    fun j hj => hr.frame j fun hm => hj (hsub hm)⟩

theorem trans (h₁ : f.Retailed g js) (h₂ : g.Retailed h js) : f.Retailed h js := by
  refine ⟨h₂.size_eq.trans h₁.size_eq, h₂.indexes_eq.trans h₁.indexes_eq,
    h₂.index_eq.trans h₁.index_eq, fun j => ?_, fun j hj => (h₂.frame j hj).trans (h₁.frame j hj)⟩
  rw [h₂.node_eq j, h₁.node_eq j]

theorem setTail {i : Nat} (hi : i ∈ js) (t : String) : f.Retailed (f.setTail i t) js := by
  refine ⟨by simp, rfl, rfl, fun j => ?_,
    fun j hj => node_setTail_of_ne (fun e : j = i => hj (e ▸ hi)) t⟩
  rcases f.node_update i (fun n => { n with tail := t }) j with hn | ⟨_, _, hn⟩ <;>
    simp [tail, Forest.setTail, hn]

theorem children_eq (hr : f.Retailed g js) (j : Nat) : g.children j = f.children j := by
  rw [children, hr.node_eq j, children]

theorem tag_eq (hr : f.Retailed g js) (j : Nat) : g.tag j = f.tag j := by
  rw [tag, hr.node_eq j, tag]

theorem text_eq (hr : f.Retailed g js) (j : Nat) : g.text j = f.text j := by
  rw [text, hr.node_eq j, text]

theorem kind_eq (hr : f.Retailed g js) (j : Nat) : g.kind j = f.kind j :=
  congrArg Kind.ofTag (hr.tag_eq j)

theorem carries (hr : f.Retailed g js) (hs : f.Carries s) : g.Carries s :=
  hs.congr_children (Nat.le_of_eq hr.size_eq.symm) fun j _ => hr.children_eq j

theorem scanParents_eq (hr : f.Retailed g js) : g.scanParents = f.scanParents :=
  scanParents_congr hr.size_eq hr.children_eq

theorem parent?_eq (hr : f.Retailed g js) (i : Nat) : g.parent? i = f.parent? i :=
  parent?_congr hr.size_eq hr.children_eq hr.indexes_eq hr.index_eq i

/-- An index that was up to date still is. -/
theorem indexable (hr : f.Retailed g js) (hi : f.Indexable) : g.Indexable := by
  rw [Indexable, hr.indexes_eq, hr.index_eq, hr.scanParents_eq]
  exact hi

theorem nearestStatementWithin?_eq (hr : f.Retailed g js) (fuel i : Nat) :
    g.nearestStatementWithin? fuel i = f.nearestStatementWithin? fuel i := by
  induction fuel generalizing i with
  | zero => rfl
  | succ fuel ih =>
    rw [nearestStatementWithin?_succ, nearestStatementWithin?_succ, hr.kind_eq, hr.parent?_eq]
    congr 1
    congr 1
    funext p
    exact ih p

theorem anchorClass_eq (hr : f.Retailed g js) (i : Nat) : g.anchorClass i = f.anchorClass i := by
  rw [anchorClass, anchorClass, nearestStatement?, nearestStatement?, hr.size_eq,
    hr.nearestStatementWithin?_eq]
  split
  · rw [hr.kind_eq]
  · rfl

theorem elementOf_eq (hr : f.Retailed g js) (hd : List.Disjoint s.preorder js) :
    g.elementOf s = f.elementOf s :=
  elementOf_congr fun j hj => hr.frame j fun hm => hd hj hm

/-- Shapes apart from the nodes with other tails denote what they did. -/
theorem map_elementOf_eq {ss : List Shape} (hr : f.Retailed g js)
    (hd : List.Disjoint js (ss.flatMap Shape.preorder)) : ss.map g.elementOf = ss.map f.elementOf :=
  List.map_congr_left fun s hs => hr.elementOf_eq fun _ hj hm =>
    hd hm (List.mem_flatMap.mpr ⟨s, hs, hj⟩)

/-- A change of the tail of the top node. -/
theorem elementOf_top (hr : f.Retailed g [s.id]) (hs : f.Holds s) :
    g.elementOf s = { f.elementOf s with tail := g.tail s.id } := by
  obtain ⟨i, cs⟩ := s
  have hi : i ∉ cs.flatMap Shape.preorder := (List.nodup_cons.mp (by simpa using hs.nodup)).1
  rw [Shape.id_node] at hr
  have hbelow : ∀ j : Nat, j ∈ cs.flatMap Shape.preorder → g.node j = f.node j := by
    intro j hj
    refine hr.frame j fun hm => hi ?_
    rw [← List.mem_singleton.mp hm]
    exact hj
  rw [elementOf_of_below hbelow, hr.tag_eq, hr.text_eq]
  simp

end Forest.Retailed

end FortranLayout
