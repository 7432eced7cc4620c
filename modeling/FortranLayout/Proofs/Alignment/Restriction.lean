import FortranLayout.Proofs.Alignment.Locality
import FortranLayout.Proofs.Markers.Idempotence

/-!
# Updating below one statement only

On a tree that has one statement below its root, an update may be asked for below the root or below
the statement. Both revise the same markers (`MarkerDraft.revise_child`). The alignment of the whole
tree comes to the first marker with the text of the statement on its line, the other one with an
empty line. So the two agree on every statement that begins with a given text exactly if that text
is empty (`restrictionAgrees_iff`).
-/

namespace FortranLayout

open Forest Element

/-! ## Revising from the root and from its child -/

namespace MarkerDraft

variable {o : MarkerOptions} {m : MarkerDraft} {p : Nat} {pre post : List Shape} {c s : Shape}

/-- A child that has been visited is still held, in the tree or apart from it. -/
theorem holds_reviseChild (ho : o.Consistent) (h : m.forest.Holds (.node p (pre ++ c :: post))) :
    (m.reviseChild o p pre.length c.id).forest.Holds c := by
  rcases reviseChild_spec ho h with ⟨tail, post', _, _, hb⟩ | ⟨post', _, _, hkeep, hb⟩
  · exact hb.reshaped.holds.child (by simp)
  · have hc := h.child (c := c) (by simp)
    exact ⟨hc.carries.congr hb.reshaped.size_le hkeep, hc.nodup⟩

theorem children_fuel (ho : o.Consistent) {fuel fuel' : Nat}
    (ih : ∀ (s : Shape) (m : MarkerDraft), s.height ≤ fuel → s.height ≤ fuel' → m.forest.Holds s →
      reviseWithin o fuel s.id m = reviseWithin o fuel' s.id m)
    (pre : List Shape) {m : MarkerDraft} {post : List Shape}
    (h : m.forest.Holds (.node p (pre ++ post)))
    (hheight : ∀ c ∈ pre, c.height ≤ fuel ∧ c.height ≤ fuel') :
    (List.range pre.length).reverse.foldl (fun m index =>
        match (m.forest.children p)[index]? with
        | none => m
        | some child => reviseWithin o fuel child (m.reviseChild o p index child)) m =
      (List.range pre.length).reverse.foldl (fun m index =>
        match (m.forest.children p)[index]? with
        | none => m
        | some child => reviseWithin o fuel' child (m.reviseChild o p index child)) m := by
  -- As in `children_spec`, the last of the children that are left goes first.
  induction pre using List.reverseRecOn generalizing m post with
  | nil => rfl
  | append_singleton pre c ih' =>
    have h' : m.forest.Holds (.node p (pre ++ c :: post)) := by simpa using h
    obtain ⟨_, hchildren, _⟩ := holds_node.mp h'
    have hindex : (m.forest.children p)[pre.length]? = some c.id := by simp [hchildren]
    obtain ⟨hc, hc'⟩ := hheight c (by simp)
    have hvisit := ih c _ hc hc' (holds_reviseChild ho h')
    obtain ⟨post', hb⟩ := descend_spec ho (revisesWithin ho fuel) h' hc rfl
    have hlength : (pre ++ [c]).length = pre.length + 1 := by simp
    rw [hlength, List.range_succ, List.reverse_append, List.reverse_singleton,
      List.singleton_append, List.foldl_cons, List.foldl_cons]
    simp only [hindex]
    rw [← hvisit]
    exact ih' hb.reshaped.holds fun d hd => hheight d (by simp [hd])

/-- Where there is fuel for all levels, how much there is makes no difference. -/
theorem reviseWithin_fuel (ho : o.Consistent) (fuel fuel' : Nat) (s : Shape) (m : MarkerDraft)
    (hs : s.height ≤ fuel) (hs' : s.height ≤ fuel') (h : m.forest.Holds s) :
    reviseWithin o fuel s.id m = reviseWithin o fuel' s.id m := by
  induction fuel generalizing fuel' s m with
  | zero =>
    cases s
    simp [Shape.height] at hs
  | succ fuel ih =>
    obtain ⟨p, cs⟩ := s
    rw [Shape.height] at hs hs'
    obtain ⟨fuel', rfl⟩ : ∃ n, fuel' = n + 1 := ⟨fuel' - 1, by omega⟩
    obtain ⟨_, hc, _⟩ := holds_node.mp h
    have hlength : (m.forest.children p).length = cs.length := by simp [hc]
    have h' : m.forest.Holds (.node p (cs ++ [])) := by simpa using h
    rw [Shape.id_node, reviseWithin, reviseWithin, hlength]
    refine children_fuel ho (fun s m => ih fuel' s m) cs h' fun c hm => ?_
    have := Shape.height_le_heights hm
    omega

/-- Revising below a node with a single child, no marker, is revising below the child. -/
theorem revise_child (ho : o.Consistent) (h : m.forest.Holds (.node p [c]))
    (hc : m.forest.kind c.id ≠ .continuation) : revise o p m = revise o c.id m := by
  obtain ⟨_, hchildren, _⟩ := holds_node.mp h
  have hheight := h.height_le
  have hvisit : m.reviseChild o p 0 c.id = m := by
    rw [reviseChild, if_neg (by simpa using hc)]
  rw [Shape.height, Shape.heights, Shape.heights, Nat.max_eq_left (Nat.zero_le _)] at hheight
  rw [revise, revise]
  obtain ⟨n, hn⟩ : ∃ n, m.forest.size = n + 1 := ⟨m.forest.size - 1, by omega⟩
  rw [hn] at hheight ⊢
  rw [reviseWithin]
  simp only [hchildren, List.map_cons, List.map_nil, List.length_singleton, List.range_one,
    List.reverse_singleton, List.foldl_cons, List.foldl_nil, List.getElem?_cons_zero, hvisit]
  exact reviseWithin_fuel ho n (n + 1) c m (by omega) (by omega) (h.child List.mem_cons_self)

end MarkerDraft

/-! ## The number of tails that alignment changes -/

/-- How many of the nodes `js` have other tails in `g`. -/
def Forest.tailsChanged (f g : Forest) (js : List Nat) : Nat :=
  js.countP fun j => g.tail j != f.tail j

theorem Forest.tailsChanged_congr {f g h : Forest} {js : List Nat}
    (hgh : ∀ j ∈ js, g.tail j = h.tail j) :
    f.tailsChanged g js = f.tailsChanged h js :=
  List.countP_congr fun j hj => by rw [hgh j hj]

theorem Forest.tail_eq_of_elementOf {f g : Forest} {s : Shape} (h : g.elementOf s = f.elementOf s) :
    ∀ j ∈ s.preorder, g.tail j = f.tail j := by
  induction s using Shape.induct with
  | h i cs ih =>
    rw [elementOf_node, elementOf_node, Element.mk.injEq] at h
    obtain ⟨_, _, htail, hcs⟩ := h
    intro j hj
    rw [Shape.preorder_node, List.mem_cons, List.mem_flatMap] at hj
    rcases hj with rfl | ⟨c, hc, hj⟩
    · exact htail
    · exact ih c hc (List.map_inj_left.mp hcs c hc) j hj

namespace Alignment

/-- `b` is `a` with other tails at some of the nodes `js`, each of them counted. -/
structure Tallied (a b : Alignment) (js : List Nat) : Prop where
  retailed : a.forest.Retailed b.forest js
  aligned_eq : b.aligned = a.aligned + a.forest.tailsChanged b.forest js

variable {a b d : Alignment} {js ks : List Nat}

theorem Tallied.of_forest_eq (hf : b.forest = a.forest) (hn : b.aligned = a.aligned) :
    Tallied a b [] :=
  ⟨hf ▸ .refl _ _, by simp [hn, tailsChanged]⟩

theorem Tallied.append (h₁ : Tallied a b js) (h₂ : Tallied b d ks) (hd : List.Disjoint js ks) :
    Tallied a d (js ++ ks) := by
  refine ⟨(h₁.retailed.mono (List.subset_append_left _ _)).trans
    (h₂.retailed.mono (List.subset_append_right _ _)), ?_⟩
  have hjs : a.forest.tailsChanged d.forest js = a.forest.tailsChanged b.forest js :=
    tailsChanged_congr fun j hj => congrArg Node.tail (h₂.retailed.frame j fun hk => hd hj hk)
  have hks : a.forest.tailsChanged d.forest ks = b.forest.tailsChanged d.forest ks := by
    refine List.countP_congr fun j hk => ?_
    have hj : b.forest.tail j = a.forest.tail j :=
      congrArg Node.tail (h₁.retailed.frame j fun hj => hd hj hk)
    rw [hj]
  rw [h₂.aligned_eq, h₁.aligned_eq, ← hjs, ← hks, tailsChanged, tailsChanged, tailsChanged,
    List.countP_append, Nat.add_assoc]

theorem tallied_alignTail (a : Alignment) {i : Nat} (hi : i < a.forest.size) (column : Nat) :
    Tallied a (a.alignTail i column) [i] := by
  obtain ⟨_, hretailed, htail⟩ := alignTail_spec hi column
  refine ⟨hretailed, ?_⟩
  rw [tailsChanged, List.countP_singleton, htail, alignTail, ← Margin.startAt]
  by_cases h : Margin.startAt (a.forest.tail i) column = a.forest.tail i
  · rw [if_pos h, h]
    simp
  · rw [if_neg h, if_pos (by simpa using h)]

theorem tallied_alignAfter (a : Alignment) {i : Nat} (hi : i < a.forest.size) (p : Nat)
    (next : Option Kind) (afterComment : Bool) :
    Tallied a (a.alignAfter p i next afterComment) [i] := by
  have hsame : ∀ b : Alignment, b.forest = a.forest → b.aligned = a.aligned → Tallied a b [i] :=
    fun b hf hn => ⟨hf ▸ .refl _ _, by simp [hf, hn, tailsChanged]⟩
  have hfound : (if a.isEndMarker i next then a.findColumn p next else a).forest = a.forest ∧
      (if a.isEndMarker i next then a.findColumn p next else a).aligned = a.aligned := by
    unfold findColumn
    split
    · split <;> exact ⟨rfl, rfl⟩
    · exact ⟨rfl, rfl⟩
  unfold alignAfter
  dsimp only
  generalize (if a.isEndMarker i next then a.findColumn p next else a) = b at hfound ⊢
  obtain ⟨hforest, haligned⟩ := hfound
  split
  · split
    · exact hsame b hforest haligned
    · have htally := tallied_alignTail b (hforest ▸ hi) (b.column.getD AnchorClass.standardColumn)
      refine ⟨hforest ▸ htally.retailed, ?_⟩
      rw [htally.aligned_eq, haligned, hforest]
  · exact hsame a rfl rfl

theorem tallied_readText (a : Alignment) (i : Nat) : Tallied a (a.readText i) [] :=
  .of_forest_eq (forest_readText a i) (by unfold readText; split <;> rfl)

theorem tallied_readTail (a : Alignment) (i : Nat) : Tallied a (a.readTail i) [] := by
  refine .of_forest_eq (forest_readTail a i) ?_
  rw [readTail]
  split
  · rfl
  · split <;> rfl

theorem tallied_alignFrom {cs : List Shape}
    (ih : ∀ s ∈ cs, ∀ a : Alignment, s.preorder.Nodup → (∀ j ∈ s.preorder, j < a.forest.size) →
      Tallied a (alignBelow s a) s.preorder.tail)
    (p : Nat) (afterComment : Bool) (a : Alignment) (hn : (cs.flatMap Shape.preorder).Nodup)
    (hlt : ∀ j ∈ cs.flatMap Shape.preorder, j < a.forest.size) :
    Tallied a (alignFrom p afterComment cs a) (cs.flatMap Shape.preorder) := by
  induction cs generalizing afterComment a with
  | nil => exact .of_forest_eq rfl rfl
  | cons s rest ihrest =>
    rw [List.flatMap_cons] at hn hlt ⊢
    obtain ⟨hs, hrest, hapart⟩ := List.nodup_append'.mp hn
    have hsplit : s.preorder = [s.id] ++ s.preorder.tail := by
      cases s
      simp
    have htop : s.id ∉ s.preorder.tail := by
      rw [hsplit, List.singleton_append] at hs
      exact (List.nodup_cons.mp hs).1
    rw [alignFrom]
    generalize (rest.head?.map fun t => a.forest.kind t.id) = next
    generalize (afterComment || (a.isEndMarker s.id next && next == some .comment)) = afterComment'
    have h₁ := tallied_alignAfter a (hlt s.id (List.mem_append_left _ s.id_mem_preorder)) p next
      afterComment'
    have h₂ := h₁.append (tallied_readText _ s.id) (List.disjoint_nil_right _)
    rw [List.append_nil] at h₂
    have h₃ := h₂.append (ih s List.mem_cons_self _ hs fun j hj => by
      rw [h₂.retailed.size_eq]
      exact hlt j (List.mem_append_left _ hj)) (List.singleton_disjoint.mpr htop)
    rw [← hsplit] at h₃
    have h₄ := h₃.append (tallied_readTail _ s.id) (List.disjoint_nil_right _)
    rw [List.append_nil] at h₄
    refine h₄.append
      (ihrest (fun t ht => ih t (List.mem_cons_of_mem _ ht)) _ _ hrest fun j hj => ?_)
      hapart
    rw [h₄.retailed.size_eq]
    exact hlt j (List.mem_append_right _ hj)

theorem tallied_alignBelow (s : Shape) (a : Alignment) (hn : s.preorder.Nodup)
    (hlt : ∀ j ∈ s.preorder, j < a.forest.size) : Tallied a (alignBelow s a) s.preorder.tail := by
  induction s using Shape.induct generalizing a with
  | h i cs ih =>
    rw [Shape.preorder_node] at hn hlt
    rw [alignBelow, Shape.preorder_node, List.tail_cons]
    exact tallied_alignFrom ih i false a (List.nodup_cons.mp hn).2 fun j hj =>
      hlt j (List.mem_cons_of_mem _ hj)

/-- A node with a single child that ends a statement: the walk below the child finds its text on the
line. -/
theorem alignBelow_single {p : Nat} {t : Shape} (h : (a.forest.kind t.id).endsStatement = true) :
    alignBelow (.node p [t]) a = (alignBelow t (a.readText t.id)).readTail t.id := by
  obtain ⟨h₁, h₂, h₃⟩ := Margin.endsStatement_iff.mp h
  have hend : ∀ next, a.isEndMarker t.id next = false := fun next => by
    rw [isEndMarker, beq_eq_false_iff_ne.mpr h₁, Bool.false_and]
  have hafter : ∀ next, a.alignAfter p t.id next false = a := fun next => by
    rw [alignAfter, hend, beq_eq_false_iff_ne.mpr h₃]
    simp
  rw [alignBelow, alignFrom, alignFrom]
  simp [hend, hafter]

end Alignment

/-! ## The two updates -/

/-- On the tree with the statement `s` below its root, the update of the whole tree and that of what
is below `s` give the same tree and the same report. -/
def RestrictionAgrees (o : MarkerOptions) (tag tail : String) (s : Element) : Prop :=
  ∃ m m', updateContinuation o root (ofElement ⟨tag, "", tail, [s]⟩) = .ok m ∧
    updateContinuation o 1 (ofElement ⟨tag, "", tail, [s]⟩) = .ok m' ∧
    m'.forest.toElement = m.forest.toElement ∧ m'.report = m.report

/-- What the first half of the two updates leaves. -/
structure SingleRevised (o : MarkerOptions) (tag tail : String) (s : Element) (m : MarkerDraft)
    (t : Shape) : Prop where
  root_eq : MarkerDraft.revise o root { forest := ofElement ⟨tag, "", tail, [s]⟩ } = m
  child_eq : MarkerDraft.revise o 1 { forest := ofElement ⟨tag, "", tail, [s]⟩ } = m
  id_eq : t.id = 1
  holds : m.forest.Holds (.node root [t])
  indexable : m.forest.Indexable
  element_eq : m.forest.elementOf t = s.revised o
  kind_root : m.forest.indexed.kind root = Kind.ofTag tag

theorem exists_singleRevised {o : MarkerOptions} (ho : o.Consistent)
    (tag tail : String) {s : Element}
    (hs : s.kind.isStatement = true) : ∃ m t, SingleRevised o tag tail s m t := by
  have hends := Margin.endsStatement_iff.mp (Kind.endsStatement_of_isStatement hs)
  have hheld := holds_ofElement ⟨tag, "", tail, [s]⟩
  have helement := elementOf_ofElement ⟨tag, "", tail, [s]⟩
  rw [shapeFrom, shapesFrom, shapesFrom] at hheld helement
  simp only [Nat.zero_add, elementOf_node, List.map_cons, List.map_nil, Element.mk.injEq,
    List.cons.injEq, and_true] at hheld helement
  obtain ⟨htag, _, _, hchild⟩ := helement
  have hid : (s.shapeFrom 1).id = 1 := s.id_shapeFrom 1
  have hkind : (ofElement ⟨tag, "", tail, [s]⟩).kind (s.shapeFrom 1).id ≠ .continuation := by
    rw [← kind_elementOf, hchild]
    exact hends.1
  have hrevise := MarkerDraft.revise_child
    (m := { forest := ofElement ⟨tag, "", tail, [s]⟩ }) ho hheld hkind
  obtain ⟨t, hb⟩ := MarkerDraft.revise_spec
    (m := { forest := ofElement ⟨tag, "", tail, [s]⟩ }) ho (hheld.child List.mem_cons_self)
  have hunindexed := MarkerDraft.unindexed_revise (o := o)
    (m := { forest := ofElement ⟨tag, "", tail, [s]⟩ }) (indexes_ofElement _) (s.shapeFrom 1).id
  rw [hchild] at hb
  have hwhole : (ofElement ⟨tag, "", tail, [s]⟩).Holds (.node root ([] ++ s.shapeFrom 1 :: [])) :=
    hheld
  refine ⟨_, t, hrevise, congrArg (fun i => MarkerDraft.revise o i _) hid.symm,
    hb.reshaped.id_eq.trans hid, (hb.reshaped.of_child hwhole).holds,
    indexable_of_none hunindexed.1 hunindexed.2, hb.element_eq, ?_⟩
  have hroot :=
    hb.reshaped.frame root (holds_node.mp hheld).1 (hheld.top_not_mem List.mem_cons_self)
  rw [Forest.kind, node_indexed, hroot]
  exact congrArg Kind.ofTag htag

namespace SingleRevised

variable {o : MarkerOptions} {tag tail : String} {s : Element} {m : MarkerDraft} {t : Shape}

theorem kind_child (h : SingleRevised o tag tail s m t) : m.forest.indexed.kind t.id = s.kind := by
  rw [← kind_elementOf, elementOf_indexed, h.element_eq]
  rfl

theorem text_child (h : SingleRevised o tag tail s m t) :
    m.forest.indexed.text t.id = (s.revised o).text := by
  rw [← text_elementOf, elementOf_indexed, h.element_eq]

/-- What a walk below the statement leaves, when it begins with the given line. -/
theorem alignBelow_spec (h : SingleRevised o tag tail s m t) (line : List Char) {a : Alignment}
    (ha : a = Alignment.alignBelow t { forest := m.forest.indexed, line := line }) :
    m.forest.indexed.Retailed a.forest t.preorder.tail ∧
      a.aligned = m.forest.indexed.tailsChanged a.forest t.preorder.tail ∧
      a.forest.toElement =
        { m.forest.elementOf (.node root [t]) with
          children := [{ s.revised o with
            children :=
              ((s.revised o).alignBelow (AnchorClass.generic.within (Kind.ofTag tag))
                ⟨line, none⟩).1 }] } := by
  have hheld := h.holds.indexed.child List.mem_cons_self
  have hclassed := h.indexable.anchorClass_child h.holds rfl
  have hroot : m.forest.indexed.anchorClass root =
      AnchorClass.generic.within (m.forest.indexed.kind root) :=
    h.indexable.anchorClass_root h.holds rfl
  have hclass : m.forest.indexed.anchorClass t.id =
      (AnchorClass.generic.within (Kind.ofTag tag)).within (m.forest.indexed.kind t.id) := by
    obtain ⟨_, hchildren, _⟩ := holds_node.mp h.holds.indexed
    rw [hclassed root (by simp) t.id (by simp [hchildren]), hroot, h.kind_root]
  have hbelow : m.forest.indexed.Classed t := fun p hp => hclassed p (by simp [hp])
  obtain ⟨_, he, hr⟩ :=
    Alignment.followsBelow t { forest := m.forest.indexed, line := line } _ hheld
    hbelow hclass
  have htally :=
    Alignment.tallied_alignBelow t { forest := m.forest.indexed, line := line } hheld.nodup
    fun j hj => hheld.carries.mem_lt j hj
  subst ha
  refine ⟨hr, by rw [htally.aligned_eq]; exact Nat.zero_add _, ?_⟩
  have htop :
      (Alignment.alignBelow t { forest := m.forest.indexed, line := line }).forest.node root =
      m.forest.node root := by
    rw [hr.frame root fun hm => h.holds.top_not_mem List.mem_cons_self (List.mem_of_mem_tail hm),
      node_indexed]
  rw [Holds.toElement_eq ⟨hr.carries h.holds.indexed.carries, h.holds.nodup⟩ rfl, elementOf_node,
    elementOf_node, List.map_cons, he, elementOf_indexed, h.element_eq, Forest.tag, Forest.text,
    Forest.tail, htop]
  rfl

/-- The walk from the root comes to the children of the statement with its text on the line. -/
theorem alignBelow_root (h : SingleRevised o tag tail s m t) (hs : s.kind.isStatement = true)
    {a a' : Alignment}
    (ha : a = Alignment.alignBelow (.node root [t]) { forest := m.forest.indexed })
    (ha' : a' = Alignment.alignBelow t
      { forest := m.forest.indexed, line := (s.revised o).text.toList }) :
    a.forest = a'.forest ∧ a.aligned = a'.aligned := by
  have hkind : (m.forest.indexed.kind t.id).endsStatement = true := by
    rw [h.kind_child]
    exact Kind.endsStatement_of_isStatement hs
  have hread : (⟨m.forest.indexed, 0, [], none⟩ : Alignment).readText t.id =
      { forest := m.forest.indexed, line := (s.revised o).text.toList } := by
    obtain ⟨h₁, h₂, _⟩ := Margin.endsStatement_iff.mp hkind
    unfold Alignment.readText
    split
    · contradiction
    · contradiction
    · rw [h.text_child]
      rfl
  have hwhole :=
    Alignment.alignBelow_single (a := ⟨m.forest.indexed, 0, [], none⟩) (p := root) hkind
  rw [hread, ← ha', ← ha] at hwhole
  have htally := Alignment.tallied_readTail a' t.id
  rw [hwhole]
  exact ⟨Alignment.forest_readTail a' t.id, htally.aligned_eq⟩

end SingleRevised

/-- The two updates agree if they do not align, and otherwise if the lines below the statement are
aligned alike with its text on the first line and without. -/
theorem restrictionAgrees_eq {o : MarkerOptions} (hv : o.validate = .ok ()) (tag tail : String)
    {s : Element} (hs : s.kind.isStatement = true) :
    RestrictionAgrees o tag tail s ↔
      (o.align = true →
        ((s.revised o).alignBelow (AnchorClass.generic.within (Kind.ofTag tag)) {}).1 =
          ((s.revised o).alignBelow (AnchorClass.generic.within (Kind.ofTag tag))
            ⟨(s.revised o).text.toList, none⟩).1) := by
  obtain ⟨m, t, h⟩ := exists_singleRevised (MarkerOptions.consistent_of_validate hv) tag tail hs
  have hupdate : ∀ i, updateContinuation o i (ofElement ⟨tag, "", tail, [s]⟩) =
      .ok (o.apply i (ofElement ⟨tag, "", tail, [s]⟩)) := fun i => by
    rw [updateContinuation, hv]
    rfl
  have hchild : m.forest.shape 1 = t := by
    rw [← h.id_eq]
    exact (h.holds.child List.mem_cons_self).shape_eq
  have hroot : m.forest.shape root = .node root [t] := h.holds.shape_eq
  rw [RestrictionAgrees]
  simp only [hupdate, Except.ok.injEq, exists_and_left, exists_eq_left',
    MarkerOptions.apply, h.root_eq, h.child_eq, hroot, hchild]
  cases halign : o.align with
  | false => simp
  | true =>
    simp only [if_true, true_implies]
    obtain ⟨hforest, haligned⟩ := h.alignBelow_root hs rfl rfl
    obtain ⟨hr, hcount, htree⟩ := h.alignBelow_spec [] rfl
    obtain ⟨hr', hcount', htree'⟩ := h.alignBelow_spec (s.revised o).text.toList rfl
    rw [hforest, haligned]
    generalize Alignment.alignBelow t { forest := m.forest.indexed } = a at hr hcount htree ⊢
    generalize Alignment.alignBelow t
      { forest := m.forest.indexed, line := (s.revised o).text.toList } = a' at hr' hcount' htree' ⊢
    have haligned : a.forest.toElement = a'.forest.toElement → a.aligned = a'.aligned := by
      intro heq
      rw [Holds.toElement_eq ⟨hr.carries h.holds.indexed.carries, h.holds.nodup⟩ rfl,
        Holds.toElement_eq ⟨hr'.carries h.holds.indexed.carries, h.holds.nodup⟩ rfl] at heq
      rw [hcount, hcount']
      exact tailsChanged_congr fun j hj => tail_eq_of_elementOf heq j (by
        simp [List.mem_of_mem_tail hj])
    constructor
    · rintro ⟨heq, _⟩
      rw [htree, htree'] at heq
      simpa using heq
    · intro heq
      have htrees : a.forest.toElement = a'.forest.toElement := by rw [htree, htree', heq]
      exact ⟨htrees, by rw [haligned htrees]⟩

/-! ## Statements that begin with a given text -/

/-- Options that align remove no marker at the end of a line. -/
theorem MarkerOptions.removeAll_eq_false {o : MarkerOptions} (hv : o.validate = .ok ())
    (halign : o.align = true) : o.removeAll = false := by
  rw [Bool.eq_false_iff]
  intro hall
  rw [validate, halign, hall] at hv
  cases hv

namespace Element

variable {o : MarkerOptions}

theorem reviseAll_marker (ho : o.removeAll = false) :
    reviseAll o {} [marker ['\n']] = { elements := [marker ['\n']] } := by
  have houtcome : o.outcomeOf .continuation ['\n'] [] = .stays ['\n'] [] := by
    have hends : MarkerOptions.endsLine ['\n'] [] = true := rfl
    have hkeeps : o.removes true = false := by
      rw [MarkerOptions.removes, ho]
      simp
    rw [MarkerOptions.outcomeOf, if_pos (beq_self_eq_true _), MarkerOptions.outcome, hends,
      hkeeps, Bool.true_and]
    cases o.addBegin <;> rfl
  have hkind : (marker ['\n']).kind = .continuation := rfl
  have htail : (marker ['\n']).tail.toList ++ ({} : Revision).lead = ['\n'] := rfl
  rw [reviseAll, reviseAll, Revision.cons, hkind, htail]
  simp only [houtcome]
  rfl

/-- A statement over two lines whose first line ends inside a parenthesis. -/
def innerProbe (text : String) : Element where
  tag := "if-stmt"
  text := text
  children := [{ tag := "E", text := "(", children := [marker ['\n']] }]

theorem revised_probe (ho : o.removeAll = false) (text : String) :
    (probe text).revised o = probe text := by
  have hrevise : (probe text).revise o = { elements := [marker ['\n']] } := by
    rw [probe, revise_mk]
    exact reviseAll_marker ho
  rw [revised, hrevise]
  simp [probe]

theorem revised_innerProbe (ho : o.removeAll = false) (text : String) :
    (innerProbe text).revised o = innerProbe text := by
  have hrevise : (innerProbe text).revise o =
      { elements := [{ tag := "E", text := "(", children := [marker ['\n']] }] } := by
    rw [innerProbe, revise_mk, reviseAll, revise_mk, reviseAll_marker ho]
    rfl
  rw [revised, hrevise]
  simp [innerProbe]

theorem alignBelow_probe_line (c : AnchorClass) (line : List Char) (text : String) :
    ((probe text).alignBelow c ⟨line, none⟩).1 =
      [marker ('\n' :: List.replicate (probeColumn ⟨line, none⟩ "") ' ')] := by
  have hclass : c.within (Kind.ofTag "if-stmt") = .ifThen := rfl
  have hline : line ++ "".toList = line := List.append_nil line
  rw [probe, alignBelow_mk, hclass, alignAll_marker, probeColumn, hline]

theorem alignBelow_innerProbe (c : AnchorClass) (line : List Char) (text : String) :
    ((innerProbe text).alignBelow c ⟨line, none⟩).1 =
      [{ tag := "E"
         text := "("
         children := [marker ('\n' :: List.replicate (probeColumn ⟨line, none⟩ "(") ' ')] }] := by
  have hclass : c.within (Kind.ofTag "if-stmt") = .ifThen := rfl
  have hinner : AnchorClass.ifThen.within (Kind.ofTag "E") = .ifThen := rfl
  have hends : (⟨"E", "(", "", [marker ['\n']]⟩ : Element).kind.endsStatement = true := rfl
  have hread : (⟨line, none⟩ : Margin).readText (Kind.ofTag "E") "(" = ⟨line ++ ['('], none⟩ := rfl
  rw [innerProbe, alignBelow_mk, hclass, alignAll_cons_of_endsStatement hends]
  have hbelow :
      (⟨"E", "(", "", [marker ['\n']]⟩ : Element).alignBelow .ifThen ⟨line ++ ['('], none⟩ =
      alignAll .ifThen false none ⟨line ++ ['('], none⟩ [marker ['\n']] := by
    rw [alignBelow_mk, hinner]
  have hkind : (⟨"E", "(", "", [marker ['\n']]⟩ : Element).kind = Kind.ofTag "E" := rfl
  rw [hkind, hread, hbelow, alignAll_marker]
  rfl

end Element

/-- Updates below the statement and of the whole tree agree if they do not align. If they align,
they agree on all statements that have a given text once their markers are revised exactly if the
text is empty. -/
theorem restrictionAgrees_iff {o : MarkerOptions} (hv : o.validate = .ok ()) (tag tail : String) :
    (o.align = false → ∀ s : Element, s.kind.isStatement = true → RestrictionAgrees o tag tail s) ∧
      (o.align = true → ∀ text : String,
        (∀ s : Element, s.kind.isStatement = true → (s.revised o).text = text →
            RestrictionAgrees o tag tail s) ↔
          text = "") := by
  refine ⟨fun halign s hs => ?_, fun halign text => ⟨fun h => ?_, ?_⟩⟩
  · rw [restrictionAgrees_eq hv tag tail hs, halign]
    exact nofun
  · have hall := MarkerOptions.removeAll_eq_false hv halign
    -- One statement has its marker right after the text, the other after a parenthesis.
    have hfirst := (restrictionAgrees_eq hv tag tail rfl).mp
      (h (probe text) rfl (by rw [revised_probe hall]; rfl)) halign
    have hinner := (restrictionAgrees_eq hv tag tail rfl).mp
      (h (innerProbe text) rfl (by rw [revised_innerProbe hall]; rfl)) halign
    rw [revised_probe hall, alignBelow_probe_line, alignBelow_probe_line, List.cons.injEq] at hfirst
    rw [revised_innerProbe hall, alignBelow_innerProbe, alignBelow_innerProbe, List.cons.injEq,
      Element.mk.injEq, List.cons.injEq] at hinner
    have hlengths := congrArg (fun e : Element => e.tail.toList.length) hfirst.1
    have hlengths' := congrArg (fun e : Element => e.tail.toList.length) hinner.1.2.2.2.1
    simp only [marker, String.toList_ofList, List.length_cons, List.length_replicate,
      Nat.add_right_cancel_iff] at hlengths hlengths'
    have hmargin := margin_eq_of_probes hlengths.symm hlengths'.symm
    rw [Margin.mk.injEq] at hmargin
    exact String.toList_inj.mp hmargin.1
  · rintro rfl s hs htext
    rw [restrictionAgrees_eq hv tag tail hs, htext]
    exact fun _ => rfl

theorem restrictionAgrees_iff_alignOnly :
    MarkerOptions.alignOnly.validate = .ok () ∧
      ∀ text : String,
        (∀ s : Element, s.kind.isStatement = true → (s.revised .alignOnly).text = text →
            RestrictionAgrees .alignOnly "file" "" s) ↔
          text = "" :=
  ⟨by decide, (restrictionAgrees_iff (by decide) "file" "").2 rfl⟩

/-- Below the call alone the second line starts on the standard column, in the whole tree after the
parenthesis of the call. -/
theorem not_restrictionAgrees_call :
    ¬ RestrictionAgrees .alignOnly "file" "" call ∧
      ∃ m m', updateContinuation .alignOnly root (ofElement ⟨"file", "", "", [call]⟩) = .ok m ∧
        updateContinuation .alignOnly 1 (ofElement ⟨"file", "", "", [call]⟩) = .ok m' ∧
        m.forest.tail 2 = "\n         " ∧ m'.forest.tail 2 = "\n    " := by
  have hv : MarkerOptions.alignOnly.validate = .ok () := by decide
  have hs : call.kind.isStatement = true := by decide
  refine ⟨?_, _, _, rfl, rfl, by decide +kernel, by decide +kernel⟩
  rw [restrictionAgrees_eq hv "file" "" hs]
  intro h
  have htails := congrArg (List.map Element.tail) (h rfl)
  revert htails
  decide +kernel

end FortranLayout
