import FortranLayout.Proofs.Comments.Pruning

/-!
# The walk that removes comments

The children of a node are walked from the last to the first. What a suffix of them becomes does not
depend on those before it, except that the tails of removed comments are left between the two
(`Swept`). From this, by induction on the depth, removing comments leaves the shape without them,
denoting the element without them (`stripped_removeWithin`), and so exactly what
`removeComments_exact` says.
-/

namespace FortranLayout

namespace Forest

variable {f g : Forest} {c : Shape} {xs ys : List Shape} {p i j : NodeId} {t : String}

/-! ## Removing one child -/

theorem elementOf_appendBefore (hf : f.Holds (.node p (xs ++ ys))) :
    (f.appendBefore p xs.length t).elementOf (.node p (xs ++ ys)) =
      (f.elementOf (.node p (xs ++ ys))).leaveBetween (xs.map f.elementOf) t
        (ys.map f.elementOf) := by
  rcases List.eq_nil_or_concat xs with rfl | ⟨zs, b, rfl⟩
  · simpa [Element.leaveBetween_nil] using elementOf_appendBefore_nil hf
  · rw [List.concat_eq_append] at hf ⊢
    rw [List.append_assoc, List.singleton_append] at hf ⊢
    rw [List.map_append, List.map_singleton, Element.leaveBetween_concat, List.length_append,
      List.length_singleton, elementOf_appendBefore_concat hf]

theorem Holds.id_ne {d : Shape} (hf : f.Holds (.node p (xs ++ c :: ys))) (hd : d ∈ xs ++ ys) :
    d.id ≠ c.id :=
  fun h => hf.apart hd c.id_mem_preorder (h ▸ d.id_mem_preorder)

theorem removeChild_eq (hf : f.Holds (.node p (xs ++ c :: ys))) :
    f.removeChild p c.id = ((f.detach p c.id).setTail c.id "").appendBefore p xs.length
      (f.tail c.id) := by
  obtain ⟨-, hchildren, -, -, -⟩ := holds_node.mp hf
  have hindex : f.childIndex? p c.id = some xs.length := by
    rw [childIndex?, hchildren, List.idxOf?_eq_some_iff]
    refine ⟨by simp, by simp, fun k hk => ?_⟩
    have hx : xs[k] ∈ xs ++ ys := List.mem_append_left _ (List.getElem_mem hk)
    simpa [List.getElem_append_left, hk] using hf.id_ne hx
  rw [removeChild, hindex]

/-- Removing a child takes it out and leaves its tail where it was. -/
theorem reshaped_removeChild (hf : f.Holds (.node p (xs ++ c :: ys))) :
    f.Reshaped (f.removeChild p c.id) (.node p (xs ++ c :: ys)) (.node p (xs ++ ys)) ∧
      (f.removeChild p c.id).elementOf (.node p (xs ++ ys)) =
        (f.elementOf (.node p (xs ++ c :: ys))).leaveBetween (xs.map f.elementOf)
          (f.elementOf c).tail (ys.map f.elementOf) := by
  have hrest : (xs ++ c :: ys).filter (·.id ∉ [c.id]) = xs ++ ys := by
    have hkept : ∀ d ∈ xs ++ ys, decide (d.id ∉ [c.id]) = true := fun d hd => by
      simpa using hf.id_ne hd
    have hfilter : (xs ++ ys).filter (·.id ∉ [c.id]) = xs ++ ys := List.filter_eq_self.mpr hkept
    rw [← hfilter, List.filter_append, List.filter_append, List.filter_cons_of_neg (by simp)]
  -- the child goes
  have hdetach := reshaped_detachAll hf [c.id]
  have hdetached := elementOf_detachAll hf [c.id]
  rw [hrest, List.foldl_cons, List.foldl_nil] at hdetach hdetached
  -- its own tail is emptied
  have hapart : List.Disjoint c.preorder (Shape.node p (xs ++ ys)).preorder :=
    hf.apart_without (List.Sublist.refl _)
  have hmem : c ∈ xs ++ c :: ys := by simp
  have hchild : (f.detach p c.id).Holds c := by
    refine ⟨(hf.child hmem).carries.congr (by simp) fun j hj => ?_, (hf.child hmem).nodup⟩
    refine node_detach_of_ne ?_ _
    rintro rfl
    exact hf.top_not_mem hmem hj
  have hempty : (f.detach p c.id).Reshaped ((f.detach p c.id).setTail c.id "") c c :=
    Reshaped.setTail hchild c.id_mem_preorder
  obtain ⟨hemptied, hsame⟩ := hdetach.trans_apart hempty (Shape.preorder_subset p hmem) hapart
  -- and what it was is left before the next child
  have hleave := reshaped_appendBefore hemptied.holds (t := f.tail c.id)
  have hleft := elementOf_appendBefore hemptied.holds (t := f.tail c.id)
  rw [hsame, hdetached, Element.leaveBetween_children] at hleft
  have hsiblings : xs.map ((f.detach p c.id).setTail c.id "").elementOf = xs.map f.elementOf ∧
      ys.map ((f.detach p c.id).setTail c.id "").elementOf = ys.map f.elementOf := by
    have hchildren := congrArg Element.children (hsame.trans hdetached)
    simp only [elementOf_node, List.map_append] at hchildren
    exact List.append_inj hchildren (by simp)
  rw [removeChild_eq hf]
  refine ⟨hemptied.trans hleave, ?_⟩
  rw [hleft, hsiblings.1, hsiblings.2, tail_elementOf]

end Forest

theorem Shape.eq_nil_of_heights {cs : List Shape} (h : Shape.heights cs = 0) : cs = [] := by
  cases cs with
  | nil => rfl
  | cons c cs =>
    cases c
    rw [Shape.heights, Shape.height] at h
    omega

namespace CommentOptions

open Forest
  (holds_node elementOf_node kind_elementOf text_elementOf tail_elementOf reshaped_removeChild)

variable {o : CommentOptions} {P : NodeId → Bool} {f g : Forest} {s c : Shape} {xs ys : List Shape}
  {p i j : NodeId} {n : Nat} {d d' : Draft}

/-! ## Which nodes are removed -/

theorem drops_elementOf (o : CommentOptions) (f : Forest) (s : Shape) :
    o.drops (f.elementOf s) = o.removes f s.id := by
  rw [drops, removes, kind_elementOf, text_elementOf]

/-- Nodes that denote the same but for the tail of the top are removed alike. -/
theorem removes_eq_of_elementOf {t : String}
    (h : g.elementOf s = { f.elementOf s with tail := t }) :
    ∀ j ∈ s.preorder, o.removes g j = o.removes f j := by
  induction s using Shape.induct generalizing t with
  | h i cs ih =>
    intro j hj
    rw [Shape.preorder_node, List.mem_cons, List.mem_flatMap] at hj
    rcases hj with rfl | ⟨c, hc, hj⟩
    · have htop := congrArg o.drops h
      rwa [drops_elementOf, Shape.id_node,
        show o.drops { f.elementOf (.node j cs) with tail := t } =
        o.drops (f.elementOf (.node j cs)) from rfl, drops_elementOf] at htop
    · have hchildren := congrArg Element.children h
      simp only [elementOf_node, List.map_inj_left] at hchildren
      refine ih c hc (t := (f.elementOf c).tail) ?_ j hj
      rw [hchildren c hc]
      cases f.elementOf c
      rfl

/-! ## From the last child to the first -/

/-- The comments below the top of `s`, those for which `P` holds, are removed: `f` has become `d`.
-/
structure Stripped (o : CommentOptions) (P : NodeId → Bool) (f : Forest) (s : Shape) (n : Nat)
    (d : Draft) : Prop where
  reshaped : f.Reshaped d.forest s (s.without P)
  element_eq : d.forest.elementOf (s.without P) = o.strip (f.elementOf s)
  edits_eq : d.edits = n + (s.outermost P).length

/-- Of the children of `p` the last ones, `ys`, have been walked, and `f` has become `d`. The tails
with which they began have been left behind the others, `xs`. -/
structure Swept (o : CommentOptions) (P : NodeId → Bool) (f : Forest) (p : NodeId)
    (xs ys : List Shape) (n : Nat) (d : Draft) : Prop where
  reshaped : f.Reshaped d.forest (.node p (xs ++ ys)) (.node p (xs ++ Shape.withoutAll P ys))
  element_eq : d.forest.elementOf (.node p (xs ++ Shape.withoutAll P ys)) =
    (f.elementOf (.node p (xs ++ ys))).leaveBetween (xs.map f.elementOf)
      (o.lead (ys.map f.elementOf)) (o.stripAll (ys.map f.elementOf))
  edits_eq : d.edits = n + (Shape.outermostAll P ys).length

theorem Swept.nil (hf : f.Holds (.node p xs)) : Swept o P f p xs [] n ⟨f, n⟩ := by
  refine ⟨?_, ?_, rfl⟩
  · rw [Shape.withoutAll]
    exact .refl (by rwa [List.append_nil])
  · simp [Shape.withoutAll, lead, stripAll, Element.leaveBetween_empty]

/-- The next child to walk stands between the others, and its tail has grown. -/
theorem Swept.next (hd : Swept o P f p (xs ++ [c]) ys n d) :
    f.Reshaped d.forest (.node p (xs ++ c :: ys)) (.node p (xs ++ c :: Shape.withoutAll P ys)) ∧
      d.forest.elementOf (.node p (xs ++ c :: Shape.withoutAll P ys)) =
        { f.elementOf (.node p (xs ++ c :: ys)) with
          children := xs.map f.elementOf ++
            { f.elementOf c with tail := (f.elementOf c).tail ++ o.lead (ys.map f.elementOf) } ::
              o.stripAll (ys.map f.elementOf) } := by
  have hreshaped := hd.reshaped
  have helement := hd.element_eq
  rw [List.append_assoc, List.append_assoc, List.singleton_append,
    List.singleton_append] at hreshaped helement
  rw [List.map_append, List.map_singleton, Element.leaveBetween_concat] at helement
  exact ⟨hreshaped, helement⟩

/-- What the children denote before the next one is walked. -/
theorem Swept.elements (hd : Swept o P f p (xs ++ [c]) ys n d) :
    xs.map d.forest.elementOf = xs.map f.elementOf ∧
      d.forest.elementOf c =
        { f.elementOf c with tail := (f.elementOf c).tail ++ o.lead (ys.map f.elementOf) } ∧
      (Shape.withoutAll P ys).map d.forest.elementOf = o.stripAll (ys.map f.elementOf) := by
  have hchildren := congrArg Element.children hd.next.2
  simp only [elementOf_node, List.map_append, List.map_cons] at hchildren
  obtain ⟨hxs, hrest⟩ := List.append_inj hchildren (by simp)
  obtain ⟨hc, hys⟩ := List.cons.inj hrest
  exact ⟨hxs, hc, hys⟩

theorem Swept.cons_removed (hd : Swept o P f p (xs ++ [c]) ys n d) (hc : o.removes f c.id = true)
    (hP : P c.id = true) :
    Swept o P f p xs (c :: ys) n ⟨d.forest.removeChild p c.id, d.edits + 1⟩ := by
  obtain ⟨hreshaped, helement⟩ := hd.next
  obtain ⟨hxs, htail, hys⟩ := hd.elements
  obtain ⟨hremoved, hleft⟩ := reshaped_removeChild hreshaped.holds
  have hwithout : Shape.withoutAll P (c :: ys) = Shape.withoutAll P ys := by
    rw [Shape.withoutAll, if_pos hP]
  have hdrops : o.drops (f.elementOf c) = true := by rwa [drops_elementOf]
  refine ⟨?_, ?_, ?_⟩
  · rw [hwithout]
    exact hreshaped.trans hremoved
  · rw [hwithout, hleft, helement, hxs, htail, hys, Element.leaveBetween_children, List.map_cons,
      lead, if_pos hdrops, stripAll, if_pos hdrops]
  · have hedits := hd.edits_eq
    rw [Shape.outermostAll, if_pos hP, List.length_append, List.length_singleton]
    simp only [hedits]
    omega

theorem Swept.cons_kept (hd : Swept o P f p (xs ++ [c]) ys n d) (hc : o.removes f c.id = false)
    (hP : P c.id = false)
    (hd' : Stripped o P d.forest c d.edits d') : Swept o P f p xs (c :: ys) n d' := by
  obtain ⟨hreshaped, helement⟩ := hd.next
  obtain ⟨hxs, htail, hys⟩ := hd.elements
  have hinner := hd'.reshaped.of_child hreshaped.holds
  have hleft := hd'.reshaped.elementOf_of_child hreshaped.holds
  have hwithout : Shape.withoutAll P (c :: ys) = c.without P :: Shape.withoutAll P ys := by
    rw [Shape.withoutAll, hP, if_neg Bool.false_ne_true]
  have hdrops : ¬o.drops (f.elementOf c) = true := by
    rw [drops_elementOf, hc]
    exact Bool.false_ne_true
  refine ⟨?_, ?_, ?_⟩
  · rw [hwithout]
    exact hreshaped.trans hinner
  · rw [hwithout, hleft, helement, hxs, hys, hd'.element_eq, htail, strip_setTail, List.map_cons,
      lead, if_neg hdrops, stripAll, if_neg hdrops, Element.leaveBetween_empty]
  · rw [hd'.edits_eq, hd.edits_eq, Shape.outermostAll, hP, if_neg Bool.false_ne_true,
      List.length_append]
    omega

/-! ## The whole walk -/

/-- All children are walked, if the walk below each of them does what it should. -/
theorem swept_foldr {walk : NodeId → Draft → Draft} (hwalk : ∀ c ∈ ys, ∀ g n, g.Holds c →
      (∀ j ∈ c.preorder, o.removes g j = P j) → Stripped o P g c n (walk c.id ⟨g, n⟩))
    (hf : f.Holds (.node p (xs ++ ys)))
    (hP : ∀ j ∈ ys.flatMap Shape.preorder, o.removes f j = P j) :
    Swept o P f p xs ys n ((ys.map Shape.id).foldr (fun child d =>
      if o.removes d.forest child then ⟨d.forest.removeChild p child, d.edits + 1⟩
        else walk child d) ⟨f, n⟩) := by
  induction ys generalizing xs with
  | nil => exact .nil (by rwa [List.append_nil] at hf)
  | cons c ys ih =>
    obtain ⟨hwalkc, hwalk⟩ := List.forall_mem_cons.mp hwalk
    rw [List.flatMap_cons] at hP
    have hPc : ∀ j ∈ c.preorder, o.removes f j = P j := fun j hj => hP j (List.mem_append_left _ hj)
    have hall : f.Holds (.node p ((xs ++ [c]) ++ ys)) := by
      rwa [List.append_assoc, List.singleton_append]
    have hd := ih hwalk hall fun j hj => hP j (List.mem_append_right _ hj)
    rw [List.map_cons, List.foldr_cons]
    generalize (ys.map Shape.id).foldr _ _ = d at hd ⊢
    have hsame := removes_eq_of_elementOf (o := o) hd.elements.2.1
    have htop := hsame c.id c.id_mem_preorder
    rw [htop]
    split
    · rename_i hremoves
      exact hd.cons_removed hremoves (by rw [← hPc c.id c.id_mem_preorder, hremoves])
    · rename_i hremoves
      rw [Bool.not_eq_true] at hremoves
      refine hd.cons_kept hremoves (by rw [← hPc c.id c.id_mem_preorder, hremoves]) ?_
      refine hwalkc d.forest d.edits (hd.reshaped.holds.child (by simp)) fun j hj => ?_
      rw [hsame j hj, hPc j hj]

theorem stripped_removeWithin {fuel : Nat} (hf : f.Holds s) (hfuel : s.height ≤ fuel + 1)
    (hP : ∀ j ∈ s.preorder, o.removes f j = P j) :
    Stripped o P f s n (o.removeWithin fuel s.id ⟨f, n⟩) := by
  induction fuel generalizing f s n with
  | zero =>
    obtain ⟨p, cs⟩ := s
    rw [Shape.height] at hfuel
    obtain rfl : cs = [] := Shape.eq_nil_of_heights (by omega)
    refine ⟨.refl hf, ?_, rfl⟩
    simp [Shape.without, Shape.withoutAll, strip, lead, stripAll, removeWithin]
  | succ fuel ih =>
    obtain ⟨p, cs⟩ := s
    rw [Shape.height] at hfuel
    have hwalk : ∀ c ∈ cs, ∀ g n, g.Holds c → (∀ j ∈ c.preorder, o.removes g j = P j) →
        Stripped o P g c n (o.removeWithin fuel c.id ⟨g, n⟩) := by
      intro c hc g n hg hPg
      have hle := Shape.height_le_heights hc
      exact ih hg (by omega) hPg
    have hbelow : ∀ j ∈ cs.flatMap Shape.preorder, o.removes f j = P j := fun j hj =>
      hP j (by rw [Shape.preorder_node]; exact List.mem_cons_of_mem _ hj)
    obtain ⟨-, hchildren, -⟩ := holds_node.mp hf
    have hall : f.Holds (.node p ([] ++ cs)) := hf
    have hswept := swept_foldr (n := n) hwalk hall hbelow
    rw [Shape.id_node, removeWithin, hchildren, List.foldl_reverse]
    refine ⟨hswept.reshaped, hswept.element_eq.trans ?_, hswept.edits_eq⟩
    simp [Element.leaveBetween_nil, strip]

/-! ## Removing comments again -/

/-- `g` has the tags of `f`, and its texts begin with those of `f`. -/
structure Grown (f g : Forest) : Prop where
  tag_eq : ∀ j, g.tag j = f.tag j
  text_eq : ∀ j, ∃ t, g.text j = f.text j ++ t

theorem Grown.refl (f : Forest) : Grown f f :=
  ⟨fun _ => rfl, fun _ => ⟨"", String.append_empty.symm⟩⟩

theorem Grown.trans {h : Forest} (hfg : Grown f g) (hgh : Grown g h) : Grown f h := by
  refine ⟨fun j => (hgh.tag_eq j).trans (hfg.tag_eq j), fun j => ?_⟩
  obtain ⟨t, ht⟩ := hfg.text_eq j
  obtain ⟨t', ht'⟩ := hgh.text_eq j
  exact ⟨t ++ t', by rw [ht', ht, String.append_assoc]⟩

/-- A comment that stays because of how it begins stays as its text grows. -/
theorem Grown.removes_eq_false (h : Grown f g) (hj : o.removes f j = false) :
    o.removes g j = false := by
  have hkind : g.kind j = f.kind j := congrArg Kind.ofTag (h.tag_eq j)
  obtain ⟨t, ht⟩ := h.text_eq j
  rw [removes, Bool.and_eq_false_iff, Bool.not_eq_false', List.any_eq_true] at hj ⊢
  rw [hkind, ht]
  refine hj.imp id ?_
  rintro ⟨directive, hmem, hbegins⟩
  refine ⟨directive, hmem, ?_⟩
  rw [Text.beginsWith, List.isPrefixOf_iff_prefix] at hbegins ⊢
  rw [String.toList_append]
  exact hbegins.trans (List.prefix_append _ _)

theorem grown_update {u : Node → Node} (htag : (u (f.node i)).tag = f.tag i)
    (htext : ∃ t, (u (f.node i)).text = f.text i ++ t) : Grown f (f.update i u) := by
  refine ⟨fun j => ?_, fun j => ?_⟩
  · rcases f.node_update i u j with h | ⟨rfl, -, h⟩
    · rw [Forest.tag, h, Forest.tag]
    · rw [Forest.tag, h, htag]
  · rcases f.node_update i u j with h | ⟨rfl, -, h⟩
    · exact ⟨"", by rw [Forest.text, h, Forest.text, String.append_empty]⟩
    · rwa [Forest.text, h]

theorem grown_detach (f : Forest) (p i : NodeId) : Grown f (f.detach p i) := by
  rw [Forest.detach]
  split
  · have hupdate : Grown f (f.update p fun n => { n with children := n.children.erase i }) :=
      grown_update rfl ⟨"", by rw [String.append_empty]; rfl⟩
    exact ⟨hupdate.tag_eq, hupdate.text_eq⟩
  · exact .refl f

theorem grown_setTail (f : Forest) (i : NodeId) (t : String) : Grown f (f.setTail i t) :=
  grown_update rfl ⟨"", by rw [String.append_empty]; rfl⟩

theorem grown_appendBefore (f : Forest) (p : NodeId) (k : Nat) (t : String) :
    Grown f (f.appendBefore p k t) := by
  cases k with
  | zero => exact grown_update rfl ⟨t, rfl⟩
  | succ before =>
    rw [Forest.appendBefore]
    split
    · exact grown_setTail f _ _
    · exact .refl f

theorem grown_removeChild (f : Forest) (p i : NodeId) : Grown f (f.removeChild p i) := by
  rw [Forest.removeChild]
  split
  · exact ((grown_detach f p i).trans (grown_setTail _ i "")).trans (grown_appendBefore _ p _ _)
  · exact .refl f

theorem grown_removeWithin (fuel : Nat) (p : NodeId) (d : Draft) :
    Grown d.forest (o.removeWithin fuel p d).forest := by
  induction fuel generalizing p d with
  | zero => exact .refl _
  | succ fuel ih =>
    rw [removeWithin]
    generalize (d.forest.children p).reverse = children
    induction children generalizing d with
    | nil => exact .refl _
    | cons i children ihchildren =>
      rw [List.foldl_cons]
      refine .trans ?_ (ihchildren _)
      split
      · exact grown_removeChild _ p i
      · exact ih i d

/-- Where nothing is to be removed, nothing changes. -/
theorem removeWithin_eq_self {fuel : Nat} (hf : f.Carries s)
    (h : ∀ j ∈ s.preorder.tail, o.removes f j = false) :
    o.removeWithin fuel s.id ⟨f, n⟩ = ⟨f, n⟩ := by
  induction fuel generalizing s with
  | zero => rfl
  | succ fuel ih =>
    obtain ⟨p, cs⟩ := s
    obtain ⟨-, hchildren, hcs⟩ := Forest.carries_node.mp hf
    rw [Shape.tail_preorder_node] at h
    rw [Shape.id_node, removeWithin, hchildren, List.foldl_reverse]
    clear hchildren hf
    induction cs with
    | nil => rfl
    | cons c cs ihcs =>
      obtain ⟨hc, hcs⟩ := List.forall_mem_cons.mp hcs
      rw [List.flatMap_cons] at h
      rw [List.map_cons, List.foldr_cons, ihcs (fun j hj => h j (List.mem_append_right _ hj)) hcs,
        h c.id (List.mem_append_left _ c.id_mem_preorder), if_neg Bool.false_ne_true]
      exact ih hc fun j hj => h j (List.mem_append_left _ (List.mem_of_mem_tail hj))

end CommentOptions

/-- Removing comments removes exactly the comments that are to be removed, each with what is below
it, and leaves their tails; and it removes them all at once. -/
theorem removeComments_exact (o : CommentOptions) (e : Element) :
    let f := Forest.ofElement e
    let d := removeComments o f
    d.forest.source = o.remaining e ∧
    (∀ i ∈ d.forest.preorder.tail, o.removes d.forest i = false) ∧
    d.forest.preorder = f.preorder.filter (fun i => ¬f.Covered (o.removes f) f.preorder.tail i) ∧
    (∀ p ∈ d.forest.preorder, d.forest.children p = (f.children p).filter (!o.removes f ·)) ∧
    d.edits = f.preorder.tail.countP (fun i => f.Uppermost (o.removes f) f.preorder.tail i) ∧
    removeComments o d.forest = { forest := d.forest } := by
  intro f d
  have hf : f.Holds (e.shapeFrom 0) := Forest.holds_ofElement e
  have hroot : (e.shapeFrom 0).id = Forest.root := e.id_shapeFrom 0
  have hd : CommentOptions.Stripped o (o.removes f) f (e.shapeFrom 0) 0 d := by
    have hfuel : (e.shapeFrom 0).height ≤ f.size + 1 := Nat.le_succ_of_le hf.height_le
    have hstripped := CommentOptions.stripped_removeWithin (o := o) (n := 0) hf hfuel fun j _ => rfl
    rwa [hroot] at hstripped
  have hdroot : ((e.shapeFrom 0).without (o.removes f)).id = Forest.root :=
    (Shape.id_without _ _).trans hroot
  have hbefore : f.preorder = (e.shapeFrom 0).preorder := hf.preorder_eq hroot
  have hafter := hd.reshaped.holds.preorder_eq hdroot
  have hfilter := hf.preorder_without (o.removes f)
  have hgrown : CommentOptions.Grown f d.forest :=
    CommentOptions.grown_removeWithin _ _ { forest := f }
  have hleft : ∀ i ∈ d.forest.preorder.tail, o.removes d.forest i = false := by
    intro i hi
    rw [hafter] at hi
    exact hgrown.removes_eq_false (Shape.not_of_mem_tail_without hi)
  refine ⟨?_, hleft, ?_, ?_, ?_, ?_⟩
  · have helement : d.forest.toElement = o.strip e := by
      rw [hd.reshaped.holds.toElement_eq hdroot, hd.element_eq, Forest.elementOf_ofElement]
    rw [← CommentOptions.source_strip, ← helement]
    rfl
  · rw [hafter, hfilter, hbefore]
  · intro p hp
    rw [hafter] at hp
    exact hf.carries.children_without hd.reshaped.holds.carries hp
  · rw [hd.edits_eq, hf.outermost_eq, hbefore, List.countP_eq_length_filter, Nat.zero_add]
  · rw [hafter] at hleft
    have hagain : o.removeWithin d.forest.size ((e.shapeFrom 0).without (o.removes f)).id
        ⟨d.forest, 0⟩ = ⟨d.forest, 0⟩ :=
      CommentOptions.removeWithin_eq_self hd.reshaped.holds.carries hleft
    rwa [hdroot] at hagain

/-- Two comments in a row after a statement, and a directive. -/
def commentRun : Element where
  tag := "file"
  children :=
    [{ tag := "print-stmt", text := "PRINT*,X", tail := " " },
     { tag := "C", text := "! a", tail := "\n  " },
     { tag := "C", text := "! b", tail := "\n" },
     { tag := "C", text := "!$OMP BARRIER", tail := "\n" }]

/-- The directive stays, and the statement has the tails of both comments. -/
theorem removeComments_exact_commentRun :
    let f := Forest.ofElement commentRun
    let d := removeComments {} f
    d.forest.source = "PRINT*,X \n  \n!$OMP BARRIER\n" ∧ d.edits = 2 ∧
    d.forest.preorder = [0, 1, 4] ∧
      CommentOptions.removes {} d.forest 4 = false ∧ d.forest.children 0 = [1, 4] := by
  intro f d
  obtain ⟨hsource, hleft, hnodes, hchildren, hedits, -⟩ := removeComments_exact {} commentRun
  have hpreorder : d.forest.preorder = [0, 1, 4] := hnodes.trans (by decide +kernel)
  refine ⟨hsource.trans (by decide +kernel), hedits.trans (by decide +kernel),
    hpreorder, hleft 4 ?_, (hchildren 0 ?_).trans (by decide +kernel)⟩
  · exact (congrArg List.tail hpreorder).symm ▸ by decide
  · exact hpreorder.symm ▸ by decide

end FortranLayout
