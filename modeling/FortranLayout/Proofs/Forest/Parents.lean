import FortranLayout.Continuation.Alignment
import FortranLayout.Proofs.Forest.OfElement
import Mathlib.Data.List.Induction

/-!
# Parents in a held tree

In a tree without a node in two places, the scan of all edges has for each node its one parent, and
none for the root (`Forest.Holds.scanParents_child`, `Forest.Holds.scanParents_root`). The class of
the statement around a node is then found from its parent (`Forest.Indexable.anchorClass_child`).
-/

namespace FortranLayout

/-- The class inside a node of kind `k` that is itself inside a statement of class `c`. -/
def AnchorClass.within (c : AnchorClass) (k : Kind) : AnchorClass :=
  if k.isStatement then .ofKind k else c

namespace Forest

variable {f g : Forest} {s : Shape} {p c : Nat}

/-! ## The scan -/

theorem size_scan (edges : List (Nat × Nat)) (a : Array (Option Nat)) :
    (edges.foldl (fun parents edge => parents.setIfInBounds edge.2 (some edge.1)) a).size =
      a.size := by
  induction edges generalizing a with
  | nil => rfl
  | cons edge edges ih => rw [List.foldl_cons, ih, Array.size_setIfInBounds]

/-- What the scan has for a node: the parent on the last edge that leads to it. -/
theorem getElem?_scanParents (hc : c < f.size) :
    f.scanParents[c]? = some ((f.edges.reverse.find? (·.2 == c)).map Prod.fst) := by
  rw [scanParents]
  generalize f.edges = edges
  -- The last edge overwrites what those before it have left.
  induction edges using List.reverseRecOn with
  | nil => simp [hc]
  | append_singleton edges edge ih =>
    rw [List.foldl_append, List.foldl_cons, List.foldl_nil, List.reverse_append,
      List.reverse_singleton, List.singleton_append, List.find?_cons, Array.getElem?_setIfInBounds,
      size_scan, Array.size_replicate]
    by_cases he : edge.2 = c
    · simp [he, hc]
    · rw [if_neg he, ih, beq_false_of_ne he]

theorem getElem?_scanParents_of_le (hc : f.size ≤ c) : f.scanParents[c]? = none := by
  rw [Array.getElem?_eq_none]
  rw [scanParents, size_scan, Array.size_replicate]
  exact hc

/-- No edge leads to a node that is no child. -/
theorem find?_edges_eq_none (h : ∀ p, c ∉ f.children p) :
    f.edges.reverse.find? (·.2 == c) = none := by
  refine List.find?_eq_none.mpr fun edge hedge he => ?_
  obtain ⟨p, _, hp⟩ := List.mem_flatMap.mp (List.mem_reverse.mp hedge)
  obtain ⟨child, hchild, rfl⟩ := List.mem_map.mp hp
  exact h p (eq_of_beq he ▸ hchild)

/-- Every node of a shape but its top is a child of one of its nodes. -/
theorem Carries.perm_children (h : f.Carries s) :
    (s.preorder.flatMap f.children).Perm s.preorder.tail := by
  induction s using Shape.induct with
  | h i cs ih =>
    obtain ⟨_, hc, hcs⟩ := carries_node.mp h
    rw [Shape.preorder_node, List.flatMap_cons, List.tail_cons, hc]
    clear h hc
    induction cs with
    | nil => simp
    | cons d ds ihds =>
      have hd := ih d List.mem_cons_self (hcs d List.mem_cons_self)
      have hds := ihds (fun b hb => ih b (List.mem_cons_of_mem _ hb))
        fun b hb => hcs b (List.mem_cons_of_mem _ hb)
      have htop : d.preorder = d.id :: d.preorder.tail := by
        cases d
        simp
      rw [List.map_cons, List.flatMap_cons, List.flatMap_append, List.cons_append, htop,
        List.cons_append, ← htop]
      refine List.Perm.cons d.id ?_
      refine List.perm_append_comm_assoc _ _ _ |>.trans ?_
      exact hd.append hds

theorem Carries.mem_of_child (hs : f.Carries s) (hp : p ∈ s.preorder)
    (hc : c ∈ f.children p) : c ∈ s.preorder :=
  List.mem_of_mem_tail (hs.perm_children.mem_iff.mp (List.mem_flatMap.mpr ⟨p, hp, hc⟩))

namespace Holds

theorem map_snd_edges (h : f.Holds s) (hs : s.id = root) :
    (f.edges.map Prod.snd).Perm s.preorder.tail := by
  have hmap : f.edges.map Prod.snd = s.preorder.flatMap f.children := by
    rw [edges, h.preorder_eq hs, List.map_flatMap]
    refine List.flatMap_congr fun p _ => ?_
    rw [List.map_map]
    exact List.map_id _
  rw [hmap]
  exact h.carries.perm_children

theorem scanParents_child (h : f.Holds s) (hs : s.id = root) (hp : p ∈ s.preorder)
    (hc : c ∈ f.children p) : f.scanParents[c]? = some (some p) := by
  have hperm := h.map_snd_edges hs
  have hmem : (p, c) ∈ f.edges := by
    rw [edges, h.preorder_eq hs]
    exact List.mem_flatMap.mpr ⟨p, hp, List.mem_map_of_mem hc⟩
  have hsnd : c ∈ s.preorder.tail := hperm.mem_iff.mp (List.mem_map_of_mem (f := Prod.snd) hmem)
  have hlt := h.carries.mem_lt c (List.mem_of_mem_tail hsnd)
  have hnodup := hperm.nodup_iff.mpr (h.nodup.sublist (List.tail_sublist _))
  obtain ⟨edge, hedge⟩ : ∃ edge, f.edges.reverse.find? (·.2 == c) = some edge :=
    Option.isSome_iff_exists.mp (List.find?_isSome.mpr ⟨(p, c), by simpa using hmem, by simp⟩)
  have heq : edge = (p, c) := by
    have hedge' : edge ∈ f.edges := List.mem_reverse.mp (List.mem_of_find?_eq_some hedge)
    have hc' : edge.2 = c := by simpa using List.find?_some hedge
    exact List.inj_on_of_nodup_map hnodup hedge' hmem hc'
  rw [getElem?_scanParents hlt, hedge, heq]
  rfl

theorem scanParents_root (h : f.Holds s) (hs : s.id = root) :
    f.scanParents[s.id]?.join = none := by
  have htop : s.id ∉ s.preorder.tail := by
    have hn := h.nodup
    obtain ⟨i, cs⟩ := s
    rw [Shape.preorder_node, List.nodup_cons] at hn
    rw [Shape.preorder_node, Shape.id_node, List.tail_cons]
    exact hn.1
  have hnone : f.edges.reverse.find? (·.2 == s.id) = none := by
    refine List.find?_eq_none.mpr fun edge hedge he => htop ?_
    rw [← (h.map_snd_edges hs).mem_iff, ← eq_of_beq he]
    exact List.mem_map_of_mem (List.mem_reverse.mp hedge)
  rw [getElem?_scanParents h.carries.id_lt, hnone]
  rfl

end Holds

/-! ## Freshly made stores -/

mutual

theorem indexes_addElement (f : Forest) (i : Nat) :
    ∀ e : Element, (f.addElement i e).indexes = f.indexes ∧ (f.addElement i e).index = none
  | ⟨tag, text, tail, cs⟩ => by
    rw [addElement]
    exact indexes_addElements _ _ cs rfl

theorem indexes_addElements (f : Forest) (i : Nat) :
    ∀ es : List Element, f.index = none →
      (f.addElements i es).indexes = f.indexes ∧ (f.addElements i es).index = none
  | [], h => by
    rw [addElements]
    exact ⟨rfl, h⟩
  | e :: es, _ => by
    obtain ⟨h₁, h₂⟩ := indexes_addElement f i e
    rw [addElements, ← h₁]
    exact indexes_addElements _ i es h₂

end

theorem indexes_ofElement (e : Element) :
    (ofElement e).indexes = true ∧ (ofElement e).index = none := by
  rw [ofElement]
  exact indexes_addElements _ _ _ rfl

/-- Parents are answered from an index, and one that has been computed is not out of date. -/
def Indexable (f : Forest) : Prop := f.indexes = true ∧ ∀ a ∈ f.index, a = f.scanParents

theorem indexable_of_none (h : f.indexes = true) (hi : f.index = none) : f.Indexable := by
  refine ⟨h, fun a ha => ?_⟩
  rw [hi] at ha
  cases ha

theorem indexable_ofElement (e : Element) : (ofElement e).Indexable :=
  indexable_of_none (indexes_ofElement e).1 (indexes_ofElement e).2

theorem Indexable.getD_index (h : f.Indexable) : f.index.getD f.scanParents = f.scanParents := by
  cases hi : f.index with
  | none => rfl
  | some a => exact h.2 a hi

/-- With its index the store answers the parents of the scan. -/
theorem Indexable.parent?_indexed (h : f.Indexable) (i : Nat) :
    f.indexed.parent? i = (f.scanParents[i]?).join := by
  rw [indexed, if_pos h.1, parent?, h.getD_index]
  simp only [h.1, if_true]
  rfl

/-! ## The statement around a node -/

theorem nearestStatementWithin?_succ (f : Forest) (fuel : Nat) (i : Nat) :
    f.nearestStatementWithin? (fuel + 1) i =
      if (f.kind i).isStatement then some i
      else (f.parent? i).bind (f.nearestStatementWithin? fuel) := rfl

/-- The class around a node whose parent is found, if the search above the parent has come to its
end. -/
theorem anchorClass_of_parent (hp : f.parent? c = some p) {fuel : Nat} (hsize : f.size = fuel + 1)
    (hstable : f.nearestStatementWithin? fuel p = f.nearestStatementWithin? (fuel + 1) p) :
    f.anchorClass c = (f.anchorClass p).within (f.kind c) := by
  rw [anchorClass, anchorClass, nearestStatement?, nearestStatement?, hsize,
    nearestStatementWithin?_succ f fuel c, hp, Option.bind_some, hstable, AnchorClass.within]
  by_cases hk : (f.kind c).isStatement = true
  · rw [if_pos hk, if_pos hk]
  · rw [if_neg hk, if_neg hk]

theorem anchorClass_of_root {i : Nat} (hp : f.parent? i = none) (hsize : 0 < f.size) :
    f.anchorClass i = AnchorClass.generic.within (f.kind i) := by
  obtain ⟨fuel, hfuel⟩ : ∃ fuel, f.size = fuel + 1 := ⟨f.size - 1, by omega⟩
  rw [anchorClass, nearestStatement?, hfuel, nearestStatementWithin?_succ, hp, AnchorClass.within]
  by_cases hk : (f.kind i).isStatement = true
  · rw [if_pos hk, if_pos hk]
  · rw [if_neg hk, if_neg hk]
    rfl

/-- Going down a shape whose parents are all found. `d` is the depth of its top, so that the search
from there ends after `d + 1` steps. -/
theorem anchorClass_child_below (hs : f.Carries s)
    (hparent : ∀ p : Nat, p ∈ s.preorder → ∀ c : Nat, c ∈ f.children p → f.parent? c = some p)
    {d : Nat} (hsize : d + s.height ≤ f.size)
    (hstable : ∀ fuel, d + 1 ≤ fuel →
      f.nearestStatementWithin? fuel s.id = f.nearestStatementWithin? (d + 1) s.id) :
    ∀ p : Nat, p ∈ s.preorder → ∀ c : Nat, c ∈ f.children p →
      f.anchorClass c = (f.anchorClass p).within (f.kind c) := by
  induction s using Shape.induct generalizing d with
  | h i cs ih =>
    obtain ⟨_, hc, hcs⟩ := carries_node.mp hs
    rw [Shape.height] at hsize
    intro p hp c hpc
    have hnonempty : ∀ b ∈ cs, d + 1 + b.height ≤ f.size := by
      intro b hb
      have := Shape.height_le_heights hb
      omega
    rw [Shape.preorder_node, List.mem_cons] at hp
    rcases hp with rfl | hp
    · -- `c` is a child of the top: two more steps are left than the depth of the top.
      have hpos : d + 2 ≤ f.size := by
        obtain ⟨b, hb, _⟩ := List.mem_map.mp (hc ▸ hpc)
        have := hnonempty b hb
        have : 0 < b.height := by
          cases b
          simp [Shape.height]
        omega
      obtain ⟨fuel, hfuel⟩ : ∃ fuel, f.size = fuel + 1 := ⟨f.size - 1, by omega⟩
      refine anchorClass_of_parent (hparent p (by simp) c hpc) hfuel ?_
      rw [Shape.id_node] at hstable
      rw [hstable fuel (by omega), hstable (fuel + 1) (by omega)]
    · obtain ⟨b, hb, hpb⟩ := List.mem_flatMap.mp hp
      refine ih b hb (hcs b hb) (fun q hq => hparent q (Shape.preorder_subset i hb hq))
        (hnonempty b hb) ?_ p hpb c hpc
      · intro fuel hfuel
        obtain ⟨fuel, rfl⟩ : ∃ n, fuel = n + 1 := ⟨fuel - 1, by omega⟩
        have hb' : f.parent? b.id = some i :=
          hparent i (by simp) b.id (hc ▸ List.mem_map_of_mem hb)
        rw [nearestStatementWithin?_succ, nearestStatementWithin?_succ, hb', Option.bind_some,
          Option.bind_some]
        rw [Shape.id_node] at hstable
        rw [hstable fuel (by omega)]

@[simp] theorem size_indexed (f : Forest) : f.indexed.size = f.size := by
  rw [indexed]
  split <;> rfl

@[simp] theorem node_indexed (f : Forest) (i : Nat) : f.indexed.node i = f.node i := by
  rw [indexed]
  split <;> rfl

theorem Holds.indexed (h : f.Holds s) : f.indexed.Holds s :=
  ⟨h.carries.congr (by simp) fun j _ => node_indexed f j, h.nodup⟩

theorem elementOf_indexed (f : Forest) (s : Shape) : f.indexed.elementOf s = f.elementOf s :=
  elementOf_congr fun j _ => node_indexed f j

theorem Indexable.anchorClass_root (hi : f.Indexable) (hf : f.Holds s) (hs : s.id = root) :
    f.indexed.anchorClass s.id = AnchorClass.generic.within (f.indexed.kind s.id) := by
  have hparent : f.indexed.parent? s.id = none := by
    rw [hi.parent?_indexed]
    exact hf.scanParents_root hs
  exact anchorClass_of_root hparent (Nat.lt_of_le_of_lt (Nat.zero_le _) hf.indexed.carries.id_lt)

/-- In a store with its index, the class around a node is its own or that around its parent. -/
theorem Indexable.anchorClass_child (hi : f.Indexable) (hf : f.Holds s) (hs : s.id = root) :
    ∀ p : Nat, p ∈ s.preorder → ∀ c : Nat, c ∈ f.indexed.children p →
      f.indexed.anchorClass c = (f.indexed.anchorClass p).within (f.indexed.kind c) := by
  refine anchorClass_child_below hf.indexed.carries ?_ (d := 0) (by simpa using hf.height_le) ?_
  · intro p hp c hc
    have hc' : c ∈ f.children p := by
      rw [children, node_indexed] at hc
      exact hc
    rw [hi.parent?_indexed, hf.scanParents_child hs hp hc']
    rfl
  · intro fuel hfuel
    obtain ⟨fuel, rfl⟩ : ∃ n, fuel = n + 1 := ⟨fuel - 1, by omega⟩
    rw [nearestStatementWithin?_succ, nearestStatementWithin?_succ, hi.parent?_indexed,
      hf.scanParents_root hs]
    rfl

end Forest

end FortranLayout
