import FortranLayout.Proofs.Forest.Parents

/-!
# Stores in document order

`Forest.ofElement` numbers the nodes in document order, so that in the store of an element a node
has a greater number than its siblings before it, and its parent is the one node that has it as a
child (`Forest.ordered_ofElement`).
-/

namespace FortranLayout

namespace Forest

/-- A store numbered in document order, in which every node has its one parent. -/
structure Ordered (f : Forest) : Prop where
  mem_preorder : ∀ i : Nat, i ∈ f.preorder ↔ i < f.size
  preorder_sorted : f.preorder.Pairwise (· < ·)
  child_lt : ∀ p c : Nat, c ∈ f.children p → c < f.size
  parent?_child : ∀ p c : Nat, c ∈ f.children p → f.parent? c = some p
  previousSibling_lt : ∀ i p : Nat, f.previousSibling? i = some p → p < i

variable {f : Forest} {s : Shape} {p c : Nat}

theorem Ordered.nodup_preorder (h : f.Ordered) : f.preorder.Nodup :=
  h.preorder_sorted.imp fun hlt => Nat.ne_of_lt hlt

/-- The children of a node come in document order. -/
theorem Carries.children_sublist (h : f.Carries s) (hp : p ∈ s.preorder) :
    (f.children p).Sublist s.preorder := by
  induction s using Shape.induct with
  | h i cs ih =>
    obtain ⟨_, hc, hcs⟩ := carries_node.mp h
    rw [Shape.preorder_node, List.mem_cons, List.mem_flatMap] at hp
    rw [Shape.preorder_node]
    apply List.Sublist.cons
    rcases hp with rfl | ⟨b, hb, hp⟩
    · rw [hc]
      clear h hc hcs ih
      induction cs with
      | nil => simp
      | cons c cs ih =>
        rw [List.map_cons, List.flatMap_cons, ← List.singleton_append]
        refine List.Sublist.append ?_ ih
        exact List.singleton_sublist.mpr c.id_mem_preorder
    · refine (ih b hb (hcs b hb) hp).trans ?_
      rw [List.flatMap_def]
      exact List.sublist_flatten_of_mem (List.mem_map_of_mem hb)

theorem previousSibling?_lt {i p : Nat} (hsorted : ∀ q, (f.children q).Pairwise (· < ·))
    (h : f.previousSibling? i = some p) : p < i := by
  rw [previousSibling?, siblingsBefore] at h
  split at h
  · rename_i q k hq
    rw [position?, Option.bind_eq_some_iff] at hq
    obtain ⟨q', _, hk⟩ := hq
    obtain ⟨k', hindex, hpair⟩ := Option.map_eq_some_iff.mp hk
    obtain ⟨rfl, rfl⟩ := Prod.mk.inj hpair
    obtain ⟨hlt, hi, _⟩ := List.idxOf?_eq_some_iff.mp hindex
    have hbefore : p ∈ (f.children q').take k' := List.mem_of_getLast? h
    have hafter : i ∈ (f.children q').drop k' := by
      rw [List.drop_eq_getElem_cons hlt, hi]
      exact List.mem_cons_self
    have hpairs := hsorted q'
    rw [← List.take_append_drop k' (f.children q'), List.pairwise_append] at hpairs
    exact hpairs.2.2 p hbefore i hafter
  · cases h

theorem pairwise_children_ofElement (e : Element) (q : Nat) :
    ((ofElement e).children q).Pairwise (· < ·) := by
  by_cases hq : q < (ofElement e).size
  · refine List.Pairwise.sublist
      ((holds_ofElement e).carries.children_sublist (mem_preorder_of_lt hq)) ?_
    rw [Element.preorder_shapeFrom]
    exact List.pairwise_lt_range'
  · rw [children, node_of_le (Nat.le_of_not_lt hq)]
    exact List.Pairwise.nil

theorem ordered_ofElement (e : Element) : (ofElement e).Ordered := by
  have hholds := holds_ofElement e
  have hroot : (e.shapeFrom 0).id = root := e.id_shapeFrom 0
  have hpreorder := hholds.preorder_eq hroot
  have hsorted : (ofElement e).preorder.Pairwise (· < ·) := by
    rw [hpreorder, Element.preorder_shapeFrom]
    exact List.pairwise_lt_range'
  have hmem {p c : Nat} (h : c ∈ (ofElement e).children p) : p ∈ (e.shapeFrom 0).preorder :=
    mem_preorder_of_lt (lt_size_of_mem_children h)
  refine ⟨fun i => ?_, hsorted, fun p c hc => ?_, fun p c hc => ?_,
    fun i p => previousSibling?_lt (pairwise_children_ofElement e)⟩
  · rw [hpreorder]
    exact ⟨hholds.carries.mem_lt i, mem_preorder_of_lt⟩
  · exact hholds.carries.mem_lt c (hholds.carries.mem_of_child (hmem hc) hc)
  · obtain ⟨hindexes, hindex⟩ := indexes_ofElement e
    rw [parent?, if_pos hindexes, hindex]
    rw [Option.getD_none, hholds.scanParents_child hroot (hmem hc) hc]
    rfl

end Forest

end FortranLayout
