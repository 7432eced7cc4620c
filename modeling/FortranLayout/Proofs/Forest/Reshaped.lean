import FortranLayout.Proofs.Forest.Held
import Mathlib.Data.List.Flatten

/-!
# Replacing one held shape by another

A structural edit is described by the shape it finds and the shape it leaves:
`Forest.Reshaped f g s s'`. The nodes of the new shape are nodes of the old one or new to the store,
and the nodes outside the old shape are not touched. Edits in a row compose
(`Forest.Reshaped.trans`). The edits that the passes are made of are given here with the shapes and
the elements that they leave.
-/

namespace FortranLayout

namespace Forest

variable {f g h : Forest} {s s' s'' c c' : Shape} {p i j : Nat} {cs xs ys : List Shape} {t : String}

/-! ## What the edits of texts keep -/

@[simp] theorem children_setTail : (f.setTail i t).children j = f.children j := by
  rcases f.node_update i (fun n => { n with tail := t }) j with h | ⟨_, _, h⟩ <;>
    simp [children, setTail, h]

@[simp] theorem children_setText : (f.setText i t).children j = f.children j := by
  rcases f.node_update i (fun n => { n with text := t }) j with h | ⟨_, _, h⟩ <;>
    simp [children, setText, h]

@[simp] theorem tag_setTail : (f.setTail i t).tag j = f.tag j := by
  rcases f.node_update i (fun n => { n with tail := t }) j with h | ⟨_, _, h⟩ <;>
    simp [tag, setTail, h]

@[simp] theorem tag_setText : (f.setText i t).tag j = f.tag j := by
  rcases f.node_update i (fun n => { n with text := t }) j with h | ⟨_, _, h⟩ <;>
    simp [tag, setText, h]

@[simp] theorem tag_appendChild : (f.appendChild p i).tag j = f.tag j := by
  rcases f.node_update p (fun n => { n with children := n.children ++ [i] }) j
    with h | ⟨_, _, h⟩ <;>
    simp [tag, appendChild, h]

theorem Carries.congr_children (hf : f.Carries s) (hsize : f.size ≤ g.size)
    (hg : ∀ j : Nat, j ∈ s.preorder → g.children j = f.children j) : g.Carries s := by
  induction s using Shape.induct with
  | h i cs ih =>
    obtain ⟨hi, hc, hcs⟩ := carries_node.mp hf
    refine carries_node.mpr ⟨Nat.lt_of_lt_of_le hi hsize, ?_, fun c hm => ?_⟩
    · rw [hg i (by simp), hc]
    · exact ih c hm (hcs c hm) fun j hj => hg j (Shape.preorder_subset i hm hj)

theorem Carries.setTail (hf : f.Carries s) : (f.setTail i t).Carries s :=
  hf.congr_children (by simp) fun _ _ => children_setTail

theorem Carries.setText (hf : f.Carries s) : (f.setText i t).Carries s :=
  hf.congr_children (by simp) fun _ _ => children_setText

theorem elementOf_setTail_of_not_mem (hi : i ∉ s.preorder) :
    (f.setTail i t).elementOf s = f.elementOf s :=
  elementOf_congr fun j hj => node_setTail_of_ne (fun e : j = i => hi (e ▸ hj)) t

theorem elementOf_setTail_top (hf : f.Holds c) :
    (f.setTail c.id t).elementOf c = { f.elementOf c with tail := t } := by
  obtain ⟨i, cs⟩ := c
  have hi : i ∉ cs.flatMap Shape.preorder := (List.nodup_cons.mp (by simpa using hf.nodup)).1
  have htop := node_setTail_self hf.carries.id_lt t
  rw [Shape.id_node,
    elementOf_of_below fun j hj => node_setTail_of_ne (fun e : j = i => hi (e ▸ hj)) t]
  simp only [Shape.id_node] at htop ⊢
  simp [tag, text, tail, htop]

theorem elementOf_setText_top (hf : f.Holds c) :
    (f.setText c.id t).elementOf c = { f.elementOf c with text := t } := by
  obtain ⟨i, cs⟩ := c
  have hi : i ∉ cs.flatMap Shape.preorder := (List.nodup_cons.mp (by simpa using hf.nodup)).1
  have htop := node_setText_self hf.carries.id_lt t
  rw [Shape.id_node,
    elementOf_of_below fun j hj => node_setText_of_ne (fun e : j = i => hi (e ▸ hj)) t]
  simp only [Shape.id_node] at htop ⊢
  simp [tag, text, tail, htop]

/-! ## Held shapes taken apart -/

theorem holds_node :
    f.Holds (.node p cs) ↔ p < f.size ∧ f.children p = cs.map Shape.id ∧ (∀ c ∈ cs, f.Carries c) ∧
      p ∉ cs.flatMap Shape.preorder ∧ (cs.flatMap Shape.preorder).Nodup := by
  constructor
  · rintro ⟨hc, hn⟩
    obtain ⟨h₁, h₂, h₃⟩ := carries_node.mp hc
    rw [Shape.preorder_node, List.nodup_cons] at hn
    exact ⟨h₁, h₂, h₃, hn.1, hn.2⟩
  · rintro ⟨h₁, h₂, h₃, h₄, h₅⟩
    refine ⟨carries_node.mpr ⟨h₁, h₂, h₃⟩, ?_⟩
    rw [Shape.preorder_node, List.nodup_cons]
    exact ⟨h₄, h₅⟩

theorem Holds.child (hf : f.Holds (.node p cs)) (hc : c ∈ cs) : f.Holds c := by
  obtain ⟨_, _, hcs, _, hn⟩ := holds_node.mp hf
  exact ⟨hcs c hc, hn.sublist (List.sublist_flatten_of_mem (List.mem_map_of_mem hc))⟩

theorem Holds.top_not_mem (hf : f.Holds (.node p cs)) (hc : c ∈ cs) : p ∉ c.preorder := by
  obtain ⟨_, _, _, hp, _⟩ := holds_node.mp hf
  exact fun hm => hp (List.mem_flatMap.mpr ⟨c, hc, hm⟩)

/-- Below each node of a held shape the store holds a part of the shape. -/
theorem Holds.exists_below (hf : f.Holds s) (hj : j ∈ s.preorder) :
    ∃ t, t.id = j ∧ f.Holds t ∧ t.preorder ⊆ s.preorder := by
  induction s using Shape.induct with
  | h i cs ih =>
    rw [Shape.preorder_node, List.mem_cons, List.mem_flatMap] at hj
    rcases hj with rfl | ⟨c, hc, hj⟩
    · exact ⟨_, rfl, hf, List.Subset.refl _⟩
    · obtain ⟨t, ht, hheld, hsub⟩ := ih c hc (hf.child hc) hj
      exact ⟨t, ht, hheld, fun k hk => Shape.preorder_subset i hc (hsub hk)⟩

/-- The nodes of a child in the middle of a list come apart from those beside it. -/
theorem perm_preorder_middle (c : Shape) (xs ys : List Shape) :
    ((xs ++ c :: ys).flatMap Shape.preorder).Perm
      (c.preorder ++ (xs ++ ys).flatMap Shape.preorder) :=
  List.perm_middle.flatMap_right _

theorem nodup_preorder_middle :
    ((xs ++ c :: ys).flatMap Shape.preorder).Nodup ↔ c.preorder.Nodup ∧
      ((xs ++ ys).flatMap Shape.preorder).Nodup ∧
        List.Disjoint c.preorder ((xs ++ ys).flatMap Shape.preorder) := by
  rw [(perm_preorder_middle c xs ys).nodup_iff, List.nodup_append']

theorem mem_preorder_middle :
    j ∈ (xs ++ c :: ys).flatMap Shape.preorder ↔
      j ∈ c.preorder ∨ j ∈ (xs ++ ys).flatMap Shape.preorder := by
  rw [(perm_preorder_middle c xs ys).mem_iff, List.mem_append]

/-- A child at one place of a list has no node in common with the others. -/
theorem Holds.apart (hf : f.Holds (.node p (xs ++ c :: ys))) {d : Shape} (hd : d ∈ xs ++ ys) :
    List.Disjoint c.preorder d.preorder := by
  obtain ⟨_, _, _, _, hn⟩ := holds_node.mp hf
  obtain ⟨_, _, hbeside⟩ := nodup_preorder_middle.mp hn
  exact fun j hc hm => hbeside hc (List.mem_flatMap.mpr ⟨d, hd, hm⟩)

/-- A child has no node in common with what is left when it is taken out. -/
theorem Holds.apart_without (hf : f.Holds (.node p (xs ++ c :: ys))) {zs : List Shape}
    (hz : List.Sublist zs ys) : List.Disjoint c.preorder (Shape.node p (xs ++ zs)).preorder := by
  intro j hj
  rw [Shape.preorder_node, List.mem_cons, List.mem_flatMap]
  rintro (rfl | ⟨d, hd, hm⟩)
  · exact hf.top_not_mem (List.mem_append_right _ List.mem_cons_self) hj
  · refine hf.apart (d := d) ?_ hj hm
    rw [List.mem_append] at hd ⊢
    exact hd.imp id fun h => hz.subset h

/-! ## Reshaped stores -/

/-- `g` is `f` with the shape `s` replaced by `s'`. -/
structure Reshaped (f g : Forest) (s s' : Shape) : Prop where
  holds : g.Holds s'
  id_eq : s'.id = s.id
  size_le : f.size ≤ g.size
  fresh : ∀ j : Nat, j ∈ s'.preorder → j ∈ s.preorder ∨ f.size ≤ j
  frame : ∀ j : Nat, j < f.size → j ∉ s.preorder → g.node j = f.node j

namespace Reshaped

theorem refl (hf : f.Holds s) : f.Reshaped f s s :=
  ⟨hf, rfl, Nat.le_refl _, fun _ hj => Or.inl hj, fun _ _ _ => rfl⟩

theorem not_mem (hr : f.Reshaped g s s') (hj : j < f.size) (hs : j ∉ s.preorder) :
    j ∉ s'.preorder := by
  intro hm
  rcases hr.fresh j hm with hm | hm
  · exact hs hm
  · omega

theorem trans (h₁ : f.Reshaped g s s') (h₂ : g.Reshaped h s' s'') : f.Reshaped h s s'' := by
  refine ⟨h₂.holds, h₂.id_eq.trans h₁.id_eq, Nat.le_trans h₁.size_le h₂.size_le, ?_, ?_⟩
  · intro j hj
    rcases h₂.fresh j hj with hj | hj
    · exact h₁.fresh j hj
    · exact Or.inr (Nat.le_trans h₁.size_le hj)
  · intro j hj hs
    rw [h₂.frame j (Nat.lt_of_lt_of_le hj h₁.size_le) (h₁.not_mem hj hs), h₁.frame j hj hs]

theorem setTail (hf : f.Holds s) (hi : i ∈ s.preorder) : f.Reshaped (f.setTail i t) s s :=
  ⟨⟨hf.carries.setTail, hf.nodup⟩, rfl, by simp, fun _ hj => Or.inl hj,
    fun j _ hs => node_setTail_of_ne (fun e : j = i => hs (e ▸ hi)) t⟩

theorem setText (hf : f.Holds s) (hi : i ∈ s.preorder) : f.Reshaped (f.setText i t) s s :=
  ⟨⟨hf.carries.setText, hf.nodup⟩, rfl, by simp, fun _ hj => Or.inl hj,
    fun j _ hs => node_setText_of_ne (fun e : j = i => hs (e ▸ hi)) t⟩

end Reshaped

/-- A change of the tail of one child leaves its siblings alone. -/
theorem map_elementOf_setTail (hf : f.Holds (.node p (xs ++ c :: ys))) :
    xs.map (f.setTail c.id t).elementOf = xs.map f.elementOf ∧
      ys.map (f.setTail c.id t).elementOf = ys.map f.elementOf := by
  have hother : ∀ d ∈ xs ++ ys, (f.setTail c.id t).elementOf d = f.elementOf d := fun d hd =>
    elementOf_setTail_of_not_mem fun hm => hf.apart hd c.id_mem_preorder hm
  exact ⟨List.map_congr_left fun d hd => hother d (List.mem_append_left _ hd),
    List.map_congr_left fun d hd => hother d (List.mem_append_right _ hd)⟩

/-- A change of the tail of one child. -/
theorem elementOf_setTail_child (hf : f.Holds (.node p (xs ++ c :: ys))) :
    (f.setTail c.id t).elementOf (.node p (xs ++ c :: ys)) =
      { f.elementOf (.node p (xs ++ c :: ys)) with
        children :=
          xs.map f.elementOf ++ { f.elementOf c with tail := t } :: ys.map f.elementOf } := by
  have hp : p ≠ c.id := fun e =>
    hf.top_not_mem (List.mem_append_right xs List.mem_cons_self) (e ▸ c.id_mem_preorder)
  obtain ⟨hxs, hys⟩ := map_elementOf_setTail hf (t := t)
  have htop :=
    elementOf_setTail_top (hf.child (List.mem_append_right xs List.mem_cons_self)) (t := t)
  have hnode := node_setTail_of_ne hp t (f := f)
  simp only [elementOf_node, List.map_append, List.map_cons, htop, tag, text, tail, hnode, hxs, hys]

/-! ## A part reshaped on its own -/

/-- What is apart from the reshaped part stays as it is. -/
theorem Reshaped.node_of_apart (hr : f.Reshaped g c c') (hf : f.Carries s)
    (hd : List.Disjoint c.preorder s.preorder) (hj : j ∈ s.preorder) : g.node j = f.node j :=
  hr.frame j (hf.mem_lt j hj) fun hc => hd hc hj

/-- A node whose children become `cs'`. Since the new shape takes up only nodes of the old one and
new ones, the node itself does not come back below itself. -/
theorem Reshaped.of_node {cs' : List Shape} (hf : f.Holds (.node p cs)) (hsize : f.size ≤ g.size)
    (hchildren : g.children p = cs'.map Shape.id) (hcarries : ∀ d ∈ cs', g.Carries d)
    (hnodup : (cs'.flatMap Shape.preorder).Nodup)
    (hfresh : ∀ j : Nat, j ∈ cs'.flatMap Shape.preorder →
      j ∈ cs.flatMap Shape.preorder ∨ f.size ≤ j)
    (hframe : ∀ j : Nat, j < f.size → j ≠ p → j ∉ cs.flatMap Shape.preorder →
      g.node j = f.node j) :
    f.Reshaped g (.node p cs) (.node p cs') := by
  obtain ⟨hp, _, _, hpn, _⟩ := holds_node.mp hf
  have hpn' : p ∉ cs'.flatMap Shape.preorder := fun hm =>
    (hfresh p hm).elim hpn fun hle => Nat.not_lt.mpr hle hp
  refine ⟨holds_node.mpr ⟨Nat.lt_of_lt_of_le hp hsize, hchildren, hcarries, hpn', hnodup⟩,
    rfl, hsize, ?_, ?_⟩
  · intro j hj
    rw [Shape.preorder_node, List.mem_cons] at hj ⊢
    exact hj.elim (fun e => Or.inl (Or.inl e)) fun hm => (hfresh j hm).imp Or.inr id
  · intro j hj hs
    rw [Shape.preorder_node, List.mem_cons, not_or] at hs
    exact hframe j hj hs.1 hs.2

theorem Reshaped.of_child (hf : f.Holds (.node p (xs ++ c :: ys))) (hr : f.Reshaped g c c') :
    f.Reshaped g (.node p (xs ++ c :: ys)) (.node p (xs ++ c' :: ys)) := by
  obtain ⟨hp, hc, hcs, _, hnd⟩ := holds_node.mp hf
  obtain ⟨_, hbeside, happart⟩ := nodup_preorder_middle.mp hnd
  have hin : ∀ d ∈ xs ++ ys, d ∈ xs ++ c :: ys := fun d hd =>
    List.perm_middle.mem_iff.mpr (List.mem_cons_of_mem c hd)
  have hnode : g.node p = f.node p :=
    hr.frame p hp (hf.top_not_mem (List.mem_append_right _ List.mem_cons_self))
  -- The nodes beside the child are not those that its new shape took up.
  have happart' : List.Disjoint c'.preorder ((xs ++ ys).flatMap Shape.preorder) := by
    intro j hj hm
    obtain ⟨d, hd, hjd⟩ := List.mem_flatMap.mp hm
    exact hr.not_mem ((hcs d (hin d hd)).mem_lt j hjd) (fun hjc => happart hjc hm) hj
  refine Reshaped.of_node hf hr.size_le ?_ ?_
    (nodup_preorder_middle.mpr ⟨hr.holds.nodup, hbeside, happart'⟩) ?_ ?_
  · have hc' : (f.node p).children = (xs ++ c :: ys).map Shape.id := hc
    rw [children, hnode, hc']
    simp [hr.id_eq]
  · intro d hd
    rcases List.mem_cons.mp (List.perm_middle.mem_iff.mp hd) with rfl | hd
    · exact hr.holds.carries
    · exact (hcs d (hin d hd)).congr hr.size_le fun j hj =>
        hr.node_of_apart (hcs d (hin d hd)) (hf.apart hd) hj
  · intro j hj
    rw [mem_preorder_middle] at hj ⊢
    exact hj.elim (fun hm => (hr.fresh j hm).imp Or.inl id) fun hm => Or.inl (Or.inr hm)
  · exact fun j hj _ hs => hr.frame j hj fun hm => hs (mem_preorder_middle.mpr (Or.inl hm))

theorem Reshaped.elementOf_of_child (hf : f.Holds (.node p (xs ++ c :: ys)))
    (hr : f.Reshaped g c c') :
    g.elementOf (.node p (xs ++ c' :: ys)) =
      { f.elementOf (.node p (xs ++ c :: ys)) with
        children := xs.map f.elementOf ++ g.elementOf c' :: ys.map f.elementOf } := by
  obtain ⟨hp, _, hcs, _, _⟩ := holds_node.mp hf
  have hnode : g.node p = f.node p :=
    hr.frame p hp (hf.top_not_mem (List.mem_append_right _ List.mem_cons_self))
  have hother : ∀ d ∈ xs ++ ys, g.elementOf d = f.elementOf d := by
    intro d hd
    have hd' : d ∈ xs ++ c :: ys := by
      rw [List.mem_append] at hd ⊢
      exact hd.imp id (List.mem_cons_of_mem _)
    exact elementOf_congr fun j hj => hr.node_of_apart (hcs d hd') (hf.apart hd) hj
  simp only [elementOf_node, List.map_append, List.map_cons, tag, text, tail, hnode,
    Element.mk.injEq, true_and]
  rw [List.map_congr_left fun d hd => hother d (List.mem_append_left _ hd),
    List.map_congr_left fun d hd => hother d (List.mem_append_right _ hd)]

/-- A part that has left the shape may be reshaped afterwards. -/
theorem Reshaped.trans_apart (h₁ : f.Reshaped g s s') (h₂ : g.Reshaped h c c')
    (hc : c.preorder ⊆ s.preorder) (hd : List.Disjoint c.preorder s'.preorder) :
    f.Reshaped h s s' ∧ h.elementOf s' = g.elementOf s' := by
  have hkeep : ∀ j : Nat, j ∈ s'.preorder → h.node j = g.node j := fun j hj =>
    h₂.node_of_apart h₁.holds.carries hd hj
  refine ⟨⟨⟨h₁.holds.carries.congr h₂.size_le hkeep, h₁.holds.nodup⟩, h₁.id_eq,
    Nat.le_trans h₁.size_le h₂.size_le, h₁.fresh, ?_⟩, elementOf_congr hkeep⟩
  intro j hj hs
  rw [h₂.frame j (Nat.lt_of_lt_of_le hj h₁.size_le) fun hm => hs (hc hm), h₁.frame j hj hs]

/-! ## A new leaf among the children -/

theorem reshaped_insertLeaf (hf : f.Holds (.node p (xs ++ ys))) (n : Node) (hn : n.children = []) :
    f.Reshaped ((f.add n).insertChild p xs.length f.size) (.node p (xs ++ ys))
      (.node p (xs ++ .node f.size [] :: ys)) := by
  obtain ⟨hp, hc, hcs, hpn, hnd⟩ := holds_node.mp hf
  have hsize : ((f.add n).insertChild p xs.length f.size).size = f.size + 1 := by simp
  have hold : ∀ j : Nat, j < f.size → j ≠ p →
      ((f.add n).insertChild p xs.length f.size).node j = f.node j := fun j hj hne => by
    rw [node_insertChild_of_ne hne, node_add_of_lt hj]
  have hlt : ∀ j : Nat, j ∈ (xs ++ ys).flatMap Shape.preorder → j < f.size := by
    intro j hj
    obtain ⟨c, hcm, hj⟩ := List.mem_flatMap.mp hj
    exact (hcs c hcm).mem_lt j hj
  have hnew :
      List.Disjoint (Shape.node f.size []).preorder ((xs ++ ys).flatMap Shape.preorder) := by
    intro j hj hm
    obtain rfl : j = f.size := by simpa using hj
    exact Nat.lt_irrefl _ (hlt _ hm)
  refine Reshaped.of_node hf (by omega) ?_ ?_
    (nodup_preorder_middle.mpr ⟨by simp, hnd, hnew⟩) ?_ fun j hj hne _ => hold j hj hne
  · have h₁ := node_insertChild_self (show p < (f.add n).size by simp; omega) xs.length f.size
    have h₂ : (f.node p).children = (xs ++ ys).map Shape.id := hc
    rw [children, h₁, node_add_of_lt hp, h₂]
    simp
  · intro c hcm
    rcases List.mem_cons.mp (List.perm_middle.mem_iff.mp hcm) with rfl | hm
    · refine carries_node.mpr ⟨by omega, ?_, by simp⟩
      rw [children, node_insertChild_of_ne (by omega), node_add_size, hn]
      rfl
    · refine (hcs c hm).congr (by omega) fun j hj => ?_
      have hjm := List.mem_flatMap.mpr ⟨c, hm, hj⟩
      exact hold j (hlt j hjm) fun e => hpn (e ▸ hjm)
  · intro j hj
    rcases mem_preorder_middle.mp hj with hj | hj
    · exact Or.inr (Nat.le_of_eq (by simpa using hj : j = f.size).symm)
    · exact Or.inl hj

theorem elementOf_insertLeaf (hf : f.Holds (.node p (xs ++ ys))) (n : Node) :
    ((f.add n).insertChild p xs.length f.size).elementOf (.node p (xs ++ .node f.size [] :: ys)) =
      { f.elementOf (.node p (xs ++ ys)) with
        children := xs.map f.elementOf ++ ⟨n.tag, n.text, n.tail, []⟩ :: ys.map f.elementOf } := by
  obtain ⟨hp, _, hcs, hpn, _⟩ := holds_node.mp hf
  have hother : ∀ d ∈ xs ++ ys,
      ((f.add n).insertChild p xs.length f.size).elementOf d = f.elementOf d := by
    intro d hd
    refine elementOf_congr fun j hj => ?_
    have hjm := List.mem_flatMap.mpr ⟨d, hd, hj⟩
    rw [node_insertChild_of_ne fun e : j = p => hpn (e ▸ hjm),
      node_add_of_lt ((hcs d hd).mem_lt j hj)]
  have htop := node_insertChild_self (show p < (f.add n).size by simp; omega) xs.length f.size
  have hleaf : ((f.add n).insertChild p xs.length f.size).node f.size = n := by
    rw [node_insertChild_of_ne (by omega), node_add_size]
  rw [node_add_of_lt hp] at htop
  simp only [elementOf_node, List.map_append, List.map_cons, List.map_nil, tag, text, tail, htop,
    hleaf, Element.mk.injEq, true_and]
  rw [List.map_congr_left fun d hd => hother d (List.mem_append_left _ hd),
    List.map_congr_left fun d hd => hother d (List.mem_append_right _ hd)]

/-! ## Text before a child -/

theorem reshaped_appendBefore (hf : f.Holds (.node p (xs ++ ys))) :
    f.Reshaped (f.appendBefore p xs.length t) (.node p (xs ++ ys)) (.node p (xs ++ ys)) := by
  obtain ⟨_, hc, _⟩ := holds_node.mp hf
  rcases List.eq_nil_or_concat xs with rfl | ⟨zs, b, rfl⟩
  · exact Reshaped.setText hf (by simp)
  · have hb : (f.children p)[zs.length]? = some b.id := by simp [hc]
    rw [List.length_concat, appendBefore]
    simp only [hb]
    refine Reshaped.setTail hf ?_
    rw [Shape.preorder_node]
    exact List.mem_cons_of_mem _ (Shape.id_mem_flatMap (by simp))

theorem elementOf_appendBefore_nil (hf : f.Holds (.node p ys)) :
    (f.appendBefore p 0 t).elementOf (.node p ys) =
      { f.elementOf (.node p ys) with text := f.text p ++ t } :=
  elementOf_setText_top hf

theorem elementOf_appendBefore_concat (hf : f.Holds (.node p (xs ++ c :: ys))) :
    (f.appendBefore p (xs.length + 1) t).elementOf (.node p (xs ++ c :: ys)) =
      { f.elementOf (.node p (xs ++ c :: ys)) with
        children := xs.map f.elementOf ++
          { f.elementOf c with tail := (f.elementOf c).tail ++ t } :: ys.map f.elementOf } := by
  obtain ⟨_, hc, _⟩ := holds_node.mp hf
  have hb : (f.children p)[xs.length]? = some c.id := by simp [hc]
  rw [appendBefore]
  simp only [hb]
  rw [elementOf_setTail_child hf, ← tail_elementOf]

/-! ## Children taken out -/

theorem node_detachAll (hf : f.Holds (.node p cs)) (out : List Nat) :
    (out.foldl (fun f c => f.detach p c) f).node p =
      { f.node p with children := (cs.filter (·.id ∉ out)).map Shape.id } := by
  obtain ⟨hp, hc, _, _, hnd⟩ := holds_node.mp hf
  have hc' : (f.node p).children = cs.map Shape.id := hc
  rw [node_foldl_detach_self hp (hc' ▸ Shape.nodup_map_id hnd), hc', List.filter_map]
  rfl

theorem reshaped_detachAll (hf : f.Holds (.node p cs)) (out : List Nat) :
    f.Reshaped (out.foldl (fun f c => f.detach p c) f) (.node p cs)
      (.node p (cs.filter (·.id ∉ out))) := by
  obtain ⟨_, _, hcs, hpn, hnd⟩ := holds_node.mp hf
  have hsub :
      List.Sublist ((cs.filter (·.id ∉ out)).flatMap Shape.preorder) (cs.flatMap Shape.preorder) :=
    List.filter_sublist.flatMap _
  have hold : ∀ j : Nat, j ≠ p →
      (out.foldl (fun f c => f.detach p c) f).node j = f.node j := fun j hne =>
    node_foldl_detach_of_ne hne out
  refine Reshaped.of_node hf (by simp) (congrArg Node.children (node_detachAll hf out)) ?_
    (hnd.sublist hsub) (fun j hm => Or.inl (hsub.subset hm)) fun j _ hne _ => hold j hne
  intro c hcm
  have hcm' := List.mem_of_mem_filter hcm
  refine (hcs c hcm').congr (by simp) fun j hj => hold j fun e => ?_
  exact hpn (e ▸ List.mem_flatMap.mpr ⟨c, hcm', hj⟩)

theorem elementOf_detachAll (hf : f.Holds (.node p cs)) (out : List Nat) :
    (out.foldl (fun f c => f.detach p c) f).elementOf (.node p (cs.filter (·.id ∉ out))) =
      { f.elementOf (.node p cs) with
        children := (cs.filter (·.id ∉ out)).map f.elementOf } := by
  obtain ⟨_, _, _, hpn, _⟩ := holds_node.mp hf
  have htop := node_detachAll hf out
  simp only [elementOf_node, tag, text, tail, htop, Element.mk.injEq, true_and]
  refine List.map_congr_left fun c hcm => elementOf_congr fun j hj => ?_
  refine node_foldl_detach_of_ne (fun e : j = p => ?_) out
  exact hpn (e ▸ List.mem_flatMap.mpr ⟨c, List.mem_of_mem_filter hcm, hj⟩)

end Forest

end FortranLayout
