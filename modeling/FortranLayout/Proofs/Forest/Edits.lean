import FortranLayout.Forest.Basic

/-!
# What an edit leaves of the other nodes

Every edit of the store goes through `Forest.update` or `Forest.add`. An update changes the node it
names and no other; an addition changes no node that was there. The named edits are read through the
same four fields: tag, text, tail, children.
-/

namespace FortranLayout

namespace Forest

variable {f : Forest} {i j : Nat}

/-! ## Outside the store -/

theorem node_of_le (h : f.size ≤ i) : f.node i = default := by
  have hi : f.nodes.size ≤ i := h
  simp [node, Array.getD_eq_getD_getElem?, hi]

theorem lt_size_of_mem_children (h : j ∈ f.children i) : i < f.size := by
  refine Nat.lt_of_not_le fun hi => ?_
  rw [children, node_of_le hi] at h
  cases h

/-! ## Updates and additions -/

@[simp] theorem size_update (f : Forest) (i : Nat) (g : Node → Node) :
    (f.update i g).size = f.size := by
  simp [update, size]

theorem node_update_self (h : i < f.size) (g : Node → Node) :
    (f.update i g).node i = g (f.node i) := by
  have hi : i < f.nodes.size := h
  simp only [node, update, Array.getD_eq_getD_getElem?, Array.getElem?_modify, if_true]
  simp [hi]

theorem node_update_of_ne (h : j ≠ i) (g : Node → Node) : (f.update i g).node j = f.node j := by
  have hij : ¬ i = j := fun e => h e.symm
  simp [node, update, Array.getD_eq_getD_getElem?, Array.getElem?_modify, hij]

/-- Outside the store there is nothing to update. -/
theorem node_update_of_le (h : f.size ≤ i) (g : Node → Node) (j : Nat) :
    (f.update i g).node j = f.node j := by
  by_cases hj : j = i
  · subst hj
    have hi : f.nodes.size ≤ j := h
    simp [node, update, Array.getD_eq_getD_getElem?, hi]
  · exact node_update_of_ne hj g

/-- An update changes at most what it says, at any node. -/
theorem node_update (f : Forest) (i : Nat) (g : Node → Node) (j : Nat) :
    (f.update i g).node j = f.node j ∨ j = i ∧ i < f.size ∧
      (f.update i g).node j = g (f.node j) := by
  by_cases hj : j = i
  · subst hj
    rcases Nat.lt_or_ge j f.size with h | h
    · exact Or.inr ⟨rfl, h, node_update_self h g⟩
    · exact Or.inl (node_update_of_le h g j)
  · exact Or.inl (node_update_of_ne hj g)

/-- An update depends on what it makes of the one node. -/
theorem update_congr {g h : Node → Node} (hgh : g (f.node i) = h (f.node i)) :
    f.update i g = f.update i h := by
  have hnodes : f.nodes.modify i g = f.nodes.modify i h := by
    refine Array.ext_getElem? fun j => ?_
    rw [Array.getElem?_modify, Array.getElem?_modify]
    by_cases hj : i = j
    · subst hj
      cases hn : f.nodes[i]? with
      | none => rfl
      | some n =>
        have hnode : f.node i = n := by rw [node, Array.getD_eq_getD_getElem?, hn, Option.getD_some]
        rw [hnode] at hgh
        simp [hgh]
    · rw [if_neg hj, if_neg hj]
  rw [update, update, hnodes]

@[simp] theorem size_add (f : Forest) (n : Node) : (f.add n).size = f.size + 1 := by
  simp [add, size]

theorem node_add_of_lt (h : j < f.size) (n : Node) : (f.add n).node j = f.node j := by
  have hj : j < f.nodes.size := h
  simp [node, add, Array.getD_eq_getD_getElem?, Array.getElem?_push, Nat.ne_of_lt hj]

@[simp] theorem node_add_size (f : Forest) (n : Node) : (f.add n).node f.size = n := by
  simp [node, add, size, Array.getD_eq_getD_getElem?]

/-- An update of the node just added. -/
theorem update_add_size (f : Forest) (n : Node) (g : Node → Node) :
    (f.add n).update f.size g = f.add (g n) := by
  have hnodes : (f.nodes.push n).modify f.nodes.size g = f.nodes.push (g n) := by
    refine Array.ext_getElem? fun i => ?_
    rw [Array.getElem?_modify, Array.getElem?_push, Array.getElem?_push]
    by_cases hi : i = f.nodes.size
    · simp [hi]
    · rw [if_neg fun h => hi h.symm, if_neg hi, if_neg hi]
  rw [update, add, size, add, hnodes]

/-- A node without children adds nothing below any node. -/
theorem children_add (f : Forest) {n : Node} (hn : n.children = []) (p : NodeId) :
    (f.add n).children p = f.children p := by
  rcases Nat.lt_trichotomy p f.size with hp | rfl | hp
  · exact congrArg Node.children (node_add_of_lt hp n)
  · rw [children, children, node_add_size, node_of_le (Nat.le_refl _)]
    exact hn
  · rw [children, children, node_of_le (Nat.le_of_lt hp), node_of_le]
    rw [size_add]
    exact hp

@[simp] theorem size_dropIndex (f : Forest) : f.dropIndex.size = f.size := rfl

@[simp] theorem node_dropIndex (f : Forest) (i : Nat) : f.dropIndex.node i = f.node i := rfl

/-! ## The named edits -/

@[simp] theorem size_setText (f : Forest) (i : Nat) (s : String) :
    (f.setText i s).size = f.size := by simp [setText]

@[simp] theorem size_setTail (f : Forest) (i : Nat) (s : String) :
    (f.setTail i s).size = f.size := by simp [setTail]

@[simp] theorem size_setTag (f : Forest) (i : Nat) (s : String) :
    (f.setTag i s).size = f.size := by simp [setTag]

@[simp] theorem size_insertChild (f : Forest) (p : Nat) (k : Nat) (c : Nat) :
    (f.insertChild p k c).size = f.size := by simp [insertChild]

@[simp] theorem size_appendChild (f : Forest) (p c : Nat) :
    (f.appendChild p c).size = f.size := by simp [appendChild]

@[simp] theorem size_detach (f : Forest) (p c : Nat) : (f.detach p c).size = f.size := by
  rw [detach]
  split <;> simp

theorem node_setText_of_ne (h : j ≠ i) (s : String) : (f.setText i s).node j = f.node j :=
  node_update_of_ne h _

theorem node_setText_self (h : i < f.size) (s : String) :
    (f.setText i s).node i = { f.node i with text := s } :=
  node_update_self h _

theorem node_setTail_of_ne (h : j ≠ i) (s : String) : (f.setTail i s).node j = f.node j :=
  node_update_of_ne h _

theorem node_setTail_self (h : i < f.size) (s : String) :
    (f.setTail i s).node i = { f.node i with tail := s } :=
  node_update_self h _

theorem node_setTag_of_ne (h : j ≠ i) (s : String) : (f.setTag i s).node j = f.node j :=
  node_update_of_ne h _

theorem node_setTag_self (h : i < f.size) (s : String) :
    (f.setTag i s).node i = { f.node i with tag := s } :=
  node_update_self h _

theorem node_insertChild_of_ne (h : j ≠ i) (k : Nat) (c : Nat) :
    (f.insertChild i k c).node j = f.node j :=
  node_update_of_ne h _

theorem node_insertChild_self (h : i < f.size) (k : Nat) (c : Nat) :
    (f.insertChild i k c).node i =
      { f.node i with children := (f.node i).children.take k ++ c :: (f.node i).children.drop k } :=
  node_update_self h _

theorem node_appendChild_of_ne (h : j ≠ i) (c : Nat) :
    (f.appendChild i c).node j = f.node j :=
  node_update_of_ne h _

theorem node_appendChild_self (h : i < f.size) (c : Nat) :
    (f.appendChild i c).node i = { f.node i with children := (f.node i).children ++ [c] } :=
  node_update_self h _

/-- To append a child is to enter it behind all others. -/
theorem appendChild_eq_insertChild (f : Forest) (p c : Nat) :
    f.appendChild p c = f.insertChild p (f.children p).length c := by
  have hupdate : f.update p (fun n => { n with children := n.children ++ [c] }) =
      f.update p fun n =>
        { n with children := n.children.take (f.children p).length ++
            c :: n.children.drop (f.children p).length } := by
    refine update_congr ?_
    simp [children]
  rw [appendChild, insertChild, hupdate]

theorem node_detach_of_ne (h : j ≠ i) (c : Nat) : (f.detach i c).node j = f.node j := by
  rw [detach]
  split
  · exact node_update_of_ne h _
  · rfl

theorem node_detach_self (h : i < f.size) (c : Nat) :
    (f.detach i c).node i = { f.node i with children := (f.node i).children.erase c } := by
  rw [detach]
  split
  · exact node_update_self h _
  · rename_i hc
    rw [List.erase_of_not_mem (l := (f.node i).children) hc]

/-- Detaching several children of one node, one after the other. -/
theorem node_foldl_detach_self (h : i < f.size) (hd : (f.node i).children.Nodup)
    (cs : List Nat) :
    (cs.foldl (fun f c => f.detach i c) f).node i =
      { f.node i with children := (f.node i).children.filter (· ∉ cs) } := by
  induction cs generalizing f with
  | nil => simp [List.filter_eq_self.mpr]
  | cons c cs ih =>
    have hc := node_detach_self h c
    rw [List.foldl_cons, ih (by simpa using h) (by rw [hc]; exact hd.erase c), hc]
    simp only [hd.erase_eq_filter, List.filter_filter, Node.mk.injEq, true_and]
    congr 1
    funext a
    by_cases ha : a = c <;> simp [ha]

theorem node_foldl_detach_of_ne (h : j ≠ i) (cs : List Nat) :
    (cs.foldl (fun f c => f.detach i c) f).node j = f.node j := by
  induction cs generalizing f with
  | nil => rfl
  | cons c cs ih => rw [List.foldl_cons, ih, node_detach_of_ne h]

@[simp] theorem size_foldl_detach (f : Forest) (i : Nat) (cs : List Nat) :
    (cs.foldl (fun f c => f.detach i c) f).size = f.size := by
  induction cs generalizing f with
  | nil => rfl
  | cons c cs ih => rw [List.foldl_cons, ih, size_detach]

end Forest

end FortranLayout
