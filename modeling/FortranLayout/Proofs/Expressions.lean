import FortranLayout.Expression
import FortranLayout.Proofs.Forest.Index
import FortranLayout.Proofs.Forest.Parents
import Mathlib.Data.List.TakeDrop

/-!
# Building expressions disturbs nothing

The nodes of an expression are added to the store, each after those below it. `Forest.Extends` says
what such additions come to: no node that was there changes, the new ones hold shapes that denote
the elements added, and children have smaller numbers than their parents, so that the node added
last is below none.

The elements of an expression write it back (`Expression.source_of_element?`), and so do their nodes
(`Forest.buildExpression_buildBounds`).
-/

namespace FortranLayout

namespace Expression

theorem source_nameElement (s : String) : (nameElement s).source = s := by
  simp [nameElement, Element.source, Element.sources]

/-- The two names of a component reference are what stands around the first percent sign. -/
theorem eq_append_of_component? {s base part : List Char} (h : component? s = some (base, part)) :
    s = base ++ '%' :: part := by
  unfold component? at h
  split at h
  · rename_i hspan
    split at h
    · cases h
      rw [List.span_eq_takeWhile_dropWhile, Prod.mk.injEq] at hspan
      rw [← hspan.1, ← hspan.2, List.takeWhile_append_dropWhile]
    · cases h
  · cases h

/-- Whatever an expression is taken for, its element writes it back. -/
theorem source_of_element? {value : String} {e : Element} (h : element? value = .ok e) :
    e.source = value := by
  unfold element? at h
  dsimp only at h
  split at h
  · cases h
    simp [Element.source, Element.sources]
  · split at h
    · cases h
      simp [Element.source, Element.sources]
    · split at h
      · cases h
        simp [Element.source, Element.sources, source_nameElement]
      · split at h
        · rename_i base part hcomponent
          cases h
          have hvalue := congrArg String.ofList (eq_append_of_component? hcomponent)
          rw [String.ofList_toList] at hvalue
          rw [hvalue]
          simp [componentElement, Element.source, Element.sources, source_nameElement]
        · cases h

end Expression

namespace Forest

variable {f g h : Forest} {s t : Shape} {ss ts : List Shape} {e : Element} {es es' : List Element}

/-- The store `g` is `f` with nodes added, among them the shapes `ss`, which denote the elements
`es`. -/
structure Extends (f g : Forest) (ss : List Shape) (es : List Element) : Prop where
  size_le : f.size ≤ g.size
  frame : ∀ j : Nat, j < f.size → g.node j = f.node j
  lower : ∀ p c : Nat, f.size ≤ p → c ∈ g.children p → c < p
  carries : ∀ s ∈ ss, g.Carries s
  nodup : (ss.flatMap Shape.preorder).Nodup
  above : ∀ j : Nat, j ∈ ss.flatMap Shape.preorder → f.size ≤ j
  elements : ss.map g.elementOf = es

namespace Extends

theorem refl (f : Forest) : f.Extends f [] [] where
  size_le := Nat.le_refl _
  frame := fun _ _ => rfl
  lower := fun p c hp hc => by
    rw [children, node_of_le hp] at hc
    cases hc
  carries := fun _ h => nomatch h
  nodup := List.nodup_nil
  above := fun _ h => nomatch h
  elements := rfl

theorem mem_lt (hg : f.Extends g ss es) {j : Nat} (hj : j ∈ ss.flatMap Shape.preorder) :
    j < g.size := by
  obtain ⟨s, hs, hj⟩ := List.mem_flatMap.mp hj
  exact (hg.carries s hs).mem_lt j hj

theorem map_elementOf (hg : f.Extends g ss es) (hh : g.Extends h ts es') :
    ss.map h.elementOf = es := by
  rw [← hg.elements]
  exact List.map_congr_left fun s hs => elementOf_congr fun j hj =>
    hh.frame j ((hg.carries s hs).mem_lt j hj)

/-- One addition after the other. -/
theorem append (hg : f.Extends g ss es) (hh : g.Extends h ts es') :
    f.Extends h (ss ++ ts) (es ++ es') where
  size_le := Nat.le_trans hg.size_le hh.size_le
  frame := fun j hj => by
    rw [hh.frame j (Nat.lt_of_lt_of_le hj hg.size_le), hg.frame j hj]
  lower := fun p c hp hc => by
    rcases Nat.lt_or_ge p g.size with hlt | hge
    · rw [children, hh.frame p hlt] at hc
      exact hg.lower p c hp hc
    · exact hh.lower p c hge hc
  carries := by
    refine List.forall_mem_append.mpr ⟨fun s hs => ?_, hh.carries⟩
    exact (hg.carries s hs).congr hh.size_le fun j hj => hh.frame j ((hg.carries s hs).mem_lt j hj)
  nodup := by
    rw [List.flatMap_append, List.nodup_append']
    refine ⟨hg.nodup, hh.nodup, fun j hjs hjt => ?_⟩
    exact Nat.not_le_of_lt (hg.mem_lt hjs) (hh.above j hjt)
  above := fun j hj => by
    rw [List.flatMap_append, List.mem_append] at hj
    rcases hj with hj | hj
    · exact hg.above j hj
    · exact Nat.le_trans hg.size_le (hh.above j hj)
  elements := by rw [List.map_append, hg.map_elementOf hh, hh.elements]

theorem sublist (hg : f.Extends g ss es) (hsub : ts.Sublist ss) :
    f.Extends g ts (ts.map g.elementOf) :=
  { hg with
    carries := fun s hs => hg.carries s (hsub.mem hs)
    nodup := hg.nodup.sublist (hsub.flatMap Shape.preorder)
    above := fun j hj => hg.above j ((hsub.flatMap Shape.preorder).mem hj)
    elements := rfl }

/-- Of two additions, what the first one added. -/
theorem first (hg : f.Extends g ss es) (hh : g.Extends h ts es') : f.Extends h ss es := by
  have hss := (hg.append hh).sublist (List.sublist_append_left ss ts)
  rwa [hg.map_elementOf hh] at hss

/-- Of two additions, what the second one added. -/
theorem second (hg : f.Extends g ss es) (hh : g.Extends h ts es') : f.Extends h ts es' := by
  have hts := (hg.append hh).sublist (List.sublist_append_right ss ts)
  rwa [hh.elements] at hts

theorem add (g : Forest) {n : Node} (hn : ∀ c ∈ n.children, c < g.size) :
    g.Extends (g.add n) [] [] :=
  { refl (g.add n) with
    size_le := by
      rw [size_add]
      exact Nat.le_succ _
    frame := fun j hj => node_add_of_lt hj n
    lower := fun p c hp hc => by
      rcases Nat.eq_or_lt_of_le hp with rfl | hgt
      · rw [children, node_add_size] at hc
        exact hn c hc
      · rw [children, node_of_le (by rw [size_add]; exact hgt)] at hc
        cases hc
    above := fun _ h => nomatch h }

/-- A node above all the shapes. -/
theorem node (hg : f.Extends g ss es) {n : Node} (hn : n.children = ss.map Shape.id) :
    f.Extends (g.add n) [.node g.size ss] [⟨n.tag, n.text, n.tail, es⟩] := by
  have hadd : f.Extends (g.add n) ss es := by
    refine hg.first (add g fun c hc => ?_)
    rw [hn] at hc
    obtain ⟨s, hs, rfl⟩ := List.mem_map.mp hc
    exact (hg.carries s hs).id_lt
  have hnode : (g.add n).node g.size = n := node_add_size g n
  exact { hadd with
    carries := List.forall_mem_singleton.mpr <| carries_node.mpr
      ⟨by rw [size_add]; exact Nat.lt_succ_self _, by rw [children, hnode, hn], hadd.carries⟩
    nodup := by
      rw [List.flatMap_singleton, Shape.preorder_node, List.nodup_cons]
      exact ⟨fun hmem => Nat.lt_irrefl _ (hg.mem_lt hmem), hg.nodup⟩
    above := fun j hj => by
      rw [List.flatMap_singleton, Shape.preorder_node, List.mem_cons] at hj
      rcases hj with rfl | hj
      · exact hg.size_le
      · exact hg.above j hj
    elements := by
      rw [List.map_singleton, elementOf_node, hadd.elements, tag, text, tail, hnode] }

theorem dropIndex (hg : f.Extends g ss es) : f.Extends g.dropIndex ss es :=
  { hg with
    carries := fun s hs => (hg.carries s hs).congr (Nat.le_refl _) fun _ _ => rfl
    elements := by
      rw [← hg.elements]
      exact List.map_congr_left fun s _ => elementOf_congr fun _ _ => rfl }

theorem closed (hg : f.Extends g ss es) (hf : f.Closed) : g.Closed where
  root_lt := Nat.lt_of_lt_of_le hf.root_lt hg.size_le
  child_lt := fun {p c} hc => by
    rcases Nat.lt_or_ge p f.size with hlt | hge
    · rw [children, hg.frame p hlt] at hc
      exact Nat.lt_of_lt_of_le (hf.child_lt hc) hg.size_le
    · exact Nat.lt_trans (hg.lower p c hge hc) (lt_size_of_mem_children hc)

/-- The node added last has no parent. -/
theorem not_mem_children (hg : f.Extends g ss es) (hf : f.Closed) {i : NodeId} (hi : f.size ≤ i)
    (hlast : g.size = i + 1) (p : NodeId) : i ∉ g.children p := by
  intro hmem
  rcases Nat.lt_or_ge p f.size with hlt | hge
  · rw [children, hg.frame p hlt] at hmem
    exact Nat.not_le_of_lt (hf.child_lt hmem) hi
  · have hip := hg.lower p i hge hmem
    have hp := lt_size_of_mem_children hmem
    omega

theorem sourceOf (hg : f.Extends g [s] [e]) : g.sourceOf s.id = e.source := by
  have hholds : g.Holds s := ⟨hg.carries s List.mem_cons_self, by simpa using hg.nodup⟩
  have helement : g.elementOf s = e := List.singleton_inj.mp hg.elements
  rw [Forest.sourceOf, element, hholds.shape_eq, helement]

end Extends

/-! ## Elements entered bottom up -/

theorem exists_addAllBottomUp
    (ih : ∀ e ∈ es, ∀ f : Forest, ∃ s : Shape, s.id = (f.addBottomUp e).2 ∧
      (f.addBottomUp e).1.size = s.id + 1 ∧ f.Extends (f.addBottomUp e).1 [s] [e]) (f : Forest) :
    ∃ ss : List Shape,
      ss.map Shape.id = (f.addAllBottomUp es).2 ∧ f.Extends (f.addAllBottomUp es).1 ss es := by
  induction es generalizing f with
  | nil => exact ⟨[], rfl, .refl f⟩
  | cons e es ihes =>
    obtain ⟨s, hid, -, hs⟩ := ih e List.mem_cons_self f
    obtain ⟨ss, hids, hss⟩ :=
      ihes (fun e' he' => ih e' (List.mem_cons_of_mem e he')) (f.addBottomUp e).1
    rw [addAllBottomUp]
    exact ⟨s :: ss, by rw [List.map_cons, hid, hids], hs.append hss⟩

/-- An element that is entered is held below the node with the greatest number. -/
theorem exists_addBottomUp (e : Element) (f : Forest) :
    ∃ s : Shape, s.id = (f.addBottomUp e).2 ∧ (f.addBottomUp e).1.size = s.id + 1 ∧
      f.Extends (f.addBottomUp e).1 [s] [e] := by
  induction e using Element.induct generalizing f with
  | h tag text tail cs ih =>
    obtain ⟨ss, hids, hss⟩ := exists_addAllBottomUp ih f
    rw [addBottomUp]
    exact ⟨.node (f.addAllBottomUp cs).1.size ss, rfl, size_add _ _, hss.node hids.symm⟩

/-! ## Expressions and bounds -/

variable {i : NodeId}

theorem parent?_eq_none (hchild : ∀ p, i ∉ f.children p) (hindex : f.index = none)
    (hi : i < f.size) :
    f.parent? i = none := by
  rw [parent?, hindex, Option.getD_none]
  split
  · rw [getElem?_scanParents hi, find?_edges_eq_none hchild]
    rfl
  · rw [walkToParent?, List.find?_eq_none]
    intro p _
    rw [List.contains_iff_mem]
    exact hchild p

/-- An expression that is refused leaves the store as it is; otherwise its node is added last and
writes it back. -/
theorem buildExpression_cases (f : Forest) (value : String) :
    (∃ fault, f.buildExpression value = (f, .error fault)) ∨
      ∃ g s e, f.buildExpression value = (g, .ok s.id) ∧ g.size = s.id + 1 ∧ g.index = none ∧
        f.Extends g [s] [e] ∧ e.source = value := by
  cases helement : Expression.element? value with
  | error fault => exact .inl ⟨fault, by rw [buildExpression, helement]⟩
  | ok e =>
    obtain ⟨s, hid, hsize, hs⟩ := exists_addBottomUp e f
    refine .inr ⟨(f.addBottomUp e).1.dropIndex, s, e, ?_, hsize, rfl, hs.dropIndex,
      Expression.source_of_element? helement⟩
    rw [buildExpression, helement, hid]

/-- Bounds that are refused leave at most the lower expression behind. Otherwise a node is added
above each of the two expressions. -/
theorem buildBounds_cases (f : Forest) (lower upper : String) (context : BoundsContext) :
    (∃ g fault ss es, f.buildBounds lower upper context = (g, .error fault) ∧ f.Extends g ss es) ∨
      ∃ g s t e e', f.buildBounds lower upper context = (g, .ok (s.id, t.id)) ∧
      f.Extends g [s] [e] ∧
        f.Extends g [t] [e'] ∧ e.source = lower ++ context.separator ∧ e'.source = upper := by
  rw [buildBounds]
  rcases f.buildExpression_cases lower with ⟨fault, hlower⟩ | ⟨g, s, e, hlower, -, -, hg, rfl⟩
  · rw [hlower]
    exact .inl ⟨f, fault, [], [], rfl, .refl f⟩
  rw [hlower]
  dsimp only
  rcases g.buildExpression_cases upper with ⟨fault, hupper⟩ | ⟨h, t, e', hupper, -, -, hh, rfl⟩
  · rw [hupper]
    exact .inl ⟨g, fault, [s], [e], rfl, hg⟩
  rw [hupper]
  have hs : f.Extends h [s] [e] := hg.first hh
  have ht : f.Extends h [t] [e'] := hg.second hh
  let lowerBound : Node := { tag := "lower-bound", tail := context.separator, children := [s.id] }
  let upperBound : Node := { tag := "upper-bound", children := [t.id] }
  have hlow : f.Extends (h.add lowerBound) [.node h.size [s]] _ := hs.node rfl
  have ht' : f.Extends (h.add lowerBound) [t] [e'] := ht.first <| .add h <|
    List.forall_mem_singleton.mpr (hs.carries s List.mem_cons_self).id_lt
  have hhigh :
    f.Extends ((h.add lowerBound).add upperBound) [.node (h.add lowerBound).size [t]] _ :=
      ht'.node rfl
  have hlow' := hlow.first <| .add (h.add lowerBound) (n := upperBound) <|
    List.forall_mem_singleton.mpr (ht'.carries t List.mem_cons_self).id_lt
  refine .inr ⟨_, _, _, _, _, ?_, hlow', hhigh, ?_, ?_⟩
  · rw [Shape.id_node, Shape.id_node, size_add]
  · simp [Element.source, Element.sources, lowerBound]
  · simp [Element.source, Element.sources, upperBound]

/-- A store stays closed, so that one expression can be built after the other. -/
theorem Closed.buildExpression (hf : f.Closed) (value : String) :
    (f.buildExpression value).1.Closed := by
  rcases f.buildExpression_cases value with ⟨fault, hbuild⟩ | ⟨g, s, e, hbuild, -, -, hs, -⟩
  · rwa [hbuild]
  · rw [hbuild]
    exact hs.closed hf

theorem Closed.buildBounds (hf : f.Closed) (lower upper : String) (context : BoundsContext) :
    (f.buildBounds lower upper context).1.Closed := by
  rcases f.buildBounds_cases lower upper context with
    ⟨g, fault, ss, es, hbuild, hs⟩ | ⟨g, s, t, e, e', hbuild, hs, -, -, -⟩
  · rw [hbuild]
    exact hs.closed hf
  · rw [hbuild]
    exact hs.closed hf

/-- An expression that is built is a new node without a parent and writes back what it was built
from, bounds that are built write back both halves with what stands between them, and nothing that
was in the store changes in either case, also not where the expression or one of the bounds is
refused. -/
theorem buildExpression_buildBounds (hf : f.Closed) :
    (∀ value g result, f.buildExpression value = (g, result) →
      (∀ i, result = .ok i → f.size ≤ i ∧ i < g.size ∧ (∀ p, i ∉ g.children p) ∧
        g.parent? i = none ∧ g.sourceOf i = value) ∧
        (∀ fault, result = .error fault → g = f) ∧
        ∀ j : NodeId, j < f.size → g.node j = f.node j) ∧
    ∀ lower upper context g result, f.buildBounds lower upper context = (g, result) →
      (∀ low high, result = .ok (low, high) →
          g.sourceOf low ++ g.sourceOf high = lower ++ context.separator ++ upper) ∧
        ∀ j : NodeId, j < f.size → g.node j = f.node j := by
  refine ⟨fun value g result h => ?_, fun lower upper context g result h => ?_⟩
  · rcases f.buildExpression_cases value
      with ⟨fault, hbuild⟩ | ⟨g', s, e, hbuild, hsize, hindex, hs, he⟩
    · obtain ⟨rfl, rfl⟩ := Prod.mk.inj (hbuild.symm.trans h)
      exact ⟨nofun, fun _ _ => rfl, fun _ _ => rfl⟩
    · obtain ⟨rfl, rfl⟩ := Prod.mk.inj (hbuild.symm.trans h)
      refine ⟨fun i hi => ?_, nofun, hs.frame⟩
      obtain rfl := Except.ok.inj hi
      have hnew : f.size ≤ s.id := hs.above s.id (Shape.id_mem_flatMap List.mem_cons_self)
      have hlt : s.id < g'.size := (hs.carries s List.mem_cons_self).id_lt
      have hchild := hs.not_mem_children hf hnew hsize
      exact ⟨hnew, hlt, hchild, parent?_eq_none hchild hindex hlt, hs.sourceOf.trans he⟩
  · rcases f.buildBounds_cases lower upper context with
      ⟨g', fault, ss, es, hbuild, hs⟩ | ⟨g', s, t, e, e', hbuild, hs, ht, he, he'⟩
    · obtain ⟨rfl, rfl⟩ := Prod.mk.inj (hbuild.symm.trans h)
      exact ⟨nofun, hs.frame⟩
    · obtain ⟨rfl, rfl⟩ := Prod.mk.inj (hbuild.symm.trans h)
      refine ⟨fun low high hi => ?_, hs.frame⟩
      obtain ⟨rfl, rfl⟩ := Prod.mk.inj (Except.ok.inj hi)
      rw [hs.sourceOf, ht.sourceOf, he, he']

theorem buildExpression_buildBounds_new :
    (∃ g, (new "file").buildExpression "D%NIT" = (g, .ok 6) ∧ g.sourceOf 6 = "D%NIT" ∧
      g.parent? 6 = none) ∧
      (∃ g, (new "file").buildBounds "D%NIT" "10" .doLoop = (g, .ok (9, 10)) ∧
        g.sourceOf 9 ++ g.sourceOf 10 = "D%NIT, 10") ∧
      ∃ g fault, (new "file").buildBounds "10" "A+B" .array = (g, .error fault) ∧
        g.node root = (new "file").node root := by
  obtain ⟨hexpression, hbounds⟩ := buildExpression_buildBounds (consistent_new "file").closed
  refine ⟨⟨_, rfl, ?_⟩, ⟨_, rfl, ?_⟩, ⟨_, .unsupported .needsParser "A+B", rfl, ?_⟩⟩
  · obtain ⟨-, -, -, hparent, hsource⟩ := (hexpression "D%NIT" _ _ rfl).1 6 rfl
    exact ⟨hsource, hparent⟩
  · exact ((hbounds "D%NIT" "10" .doLoop _ _ rfl).1 9 10 rfl).trans rfl
  · exact (hbounds "10" "A+B" .array _ _ rfl).2 root (consistent_new "file").closed.root_lt

end Forest

end FortranLayout
