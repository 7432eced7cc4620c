import FortranLayout.Proofs.Forest.Retailed
import FortranLayout.Proofs.Indentation.Levels

/-!
# The store follows the indentation

Re-indenting changes nothing of the store but tails, and the tails are those that the indentation of
elements gives (`toElement_indentTree`). The walk writes in two places at a time: in the shape that
it visits, and back in the shape before it.
-/

namespace FortranLayout

/-! ## Shapes that come to denote another element -/

/-- `g` is `f` with other tails within the shape `s`, which now denotes `e`. -/
structure Forest.Becomes (f g : Forest) (s : Shape) (e : Element) : Prop where
  retailed : f.Retailed g s.preorder
  elementOf_eq : g.elementOf s = e

namespace Forest

variable {f g h : Forest} {s : Shape} {e e' : Element} {js : List Nat}

theorem Retailed.holds (hr : f.Retailed g js) (hs : f.Holds s) : g.Holds s :=
  ⟨hr.carries hs.carries, hs.nodup⟩

theorem Retailed.reshaped (hr : f.Retailed g s.preorder) (hs : f.Holds s) : f.Reshaped g s s :=
  ⟨hr.holds hs, rfl, Nat.le_of_eq hr.size_eq.symm, fun _ hj => Or.inl hj,
    fun j _ hj => hr.frame j hj⟩

theorem Becomes.refl (f : Forest) (s : Shape) : f.Becomes f s (f.elementOf s) :=
  ⟨.refl _ _, rfl⟩

/-- A change within one child. -/
theorem Becomes.of_child {i : Nat} {xs ys : List Shape} (hf : f.Holds (.node i (xs ++ s :: ys)))
    (hb : f.Becomes g s e) :
    f.Becomes g (.node i (xs ++ s :: ys))
      { f.elementOf (.node i (xs ++ s :: ys)) with
        children := xs.map f.elementOf ++ e :: ys.map f.elementOf } := by
  have hs : s ∈ xs ++ s :: ys := List.mem_append_right _ List.mem_cons_self
  refine ⟨hb.retailed.mono (Shape.preorder_subset i hs), ?_⟩
  rw [(hb.retailed.reshaped (hf.child hs)).elementOf_of_child hf, hb.elementOf_eq]

/-! ## What the walk reads

The walk reads kinds, tags and texts, which do not change. -/

variable (p : IndentParams)

theorem keepsLine_elementOf (f : Forest) (next : Option Shape) :
    p.keepsLine f (next.map Shape.id) = Element.keepsLine p (next.map f.elementOf) := by
  cases next with
  | none => rfl
  | some s =>
    cases s
    rfl

theorem isCloser_elementOf (f : Forest) (inside : Option NodeId) (s : Shape) :
    f.isCloser inside s.id = (f.elementOf s).isCloser (inside.map f.tag) := by
  cases s
  cases inside <;> rfl

theorem levelAfter_elementOf (f : Forest) (inside : Option NodeId) (level : Nat) (s : Shape) :
    p.levelAfter f inside level s.id = (f.elementOf s).levelAfter p (inside.map f.tag) level := by
  cases s
  cases inside <;> rfl

theorem innerConstruct_elementOf (f : Forest) (s : Shape) :
    (IndentParams.innerConstruct f s.id).map f.tag = (f.elementOf s).innerTag := by
  obtain ⟨i, cs⟩ := s
  have hkind : (f.elementOf (.node i cs)).kind = f.kind i := rfl
  rw [IndentParams.innerConstruct, Element.innerTag, hkind, Shape.id_node]
  cases f.kind i <;> rfl

theorem startsInterBranch_elementOf (hs : f.Carries s) :
    f.startsInterBranch s.id = (f.elementOf s).startsInterBranch := by
  obtain ⟨i, cs⟩ := s
  obtain ⟨_, hc, _⟩ := carries_node.mp hs
  rw [startsInterBranch, Element.startsInterBranch, Shape.id_node, firstChild?, hc, elementOf_node]
  cases cs with
  | nil => rfl
  | cons c cs => simp [kind_elementOf]

namespace Retailed

variable {p}

theorem keepsLine_eq (hr : f.Retailed g js) (next : Option NodeId) :
    p.keepsLine g next = p.keepsLine f next := by
  cases next with
  | none => rfl
  | some n => simp only [IndentParams.keepsLine, hr.kind_eq, hr.text_eq]

theorem isCloser_eq (hr : f.Retailed g js) (inside : Option NodeId) (i : Nat) :
    g.isCloser inside i = f.isCloser inside i := by
  simp only [isCloser, closesBody, isStatementOf, hr.kind_eq, hr.tag_eq]

theorem startsInterBranch_eq (hr : f.Retailed g js) (i : Nat) :
    g.startsInterBranch i = f.startsInterBranch i := by
  simp only [startsInterBranch, firstChild?, hr.children_eq, hr.kind_eq]

end Retailed

end Forest

namespace IndentParams

open Forest

variable {p : IndentParams} {d : Draft} {s : Shape}

/-! ## One line -/

theorem becomes_setLevel (hs : d.forest.Holds s) {next : Option NodeId} {n : Option Element}
    (hn : p.keepsLine d.forest next = Element.keepsLine p n) (level : Nat) :
    d.forest.Becomes (p.setLevel d s.id level next).forest s
      ((d.forest.elementOf s).setLevel p level n) := by
  rw [setLevel, Draft.editTail, Element.setLevel, tail_elementOf, hn]
  generalize String.ofList _ = tail
  split
  · rename_i heq
    refine ⟨.refl _ _, ?_⟩
    rw [heq, ← tail_elementOf]
    cases d.forest.elementOf s
    rfl
  · refine ⟨.setTail s.id_mem_preorder tail, ?_⟩
    exact elementOf_setTail_top hs

theorem becomes_setLevelAfterLast (hs : d.forest.Holds s) {next : NodeId} {n : Element}
    (hn : p.keepsLine d.forest (some next) = Element.keepsLine p (some n)) (level : Nat) :
    d.forest.Becomes (p.setLevelAfterLast d (some s.id) level next).forest s
      ((d.forest.elementOf s).setLevelAfterLast p level n) := by
  obtain ⟨i, cs⟩ := s
  obtain ⟨_, hc, _⟩ := carries_node.mp hs.carries
  rw [setLevelAfterLast, Element.setLevelAfterLast, Option.bind_some, Shape.id_node, lastChild?, hc]
  rcases List.eq_nil_or_concat' cs with rfl | ⟨xs, c, rfl⟩
  · exact .refl _ _
  · rw [List.map_append, List.map_singleton, List.getLast?_concat]
    have hb := (becomes_setLevel (hs.child (by simp : c ∈ xs ++ [c])) hn level).of_child hs
    rw [elementOf_node, List.map_append, List.map_singleton] at hb ⊢
    rw [List.modifyLast_concat]
    exact hb

theorem becomes_closeArm (hs : d.forest.Holds s) (level : Nat) :
    d.forest.Becomes (p.closeArm d level s.id).forest s
      ((d.forest.elementOf s).closeArm p level) := by
  have hself := Becomes.refl d.forest s
  obtain ⟨i, cs⟩ := s
  obtain ⟨_, hc, _⟩ := carries_node.mp hs.carries
  rw [closeArm, armEnd?, Shape.id_node, hc, Element.closeArm, elementOf_node]
  rw [elementOf_node] at hself
  rcases List.eq_nil_or_concat' cs with rfl | ⟨xs, c, rfl⟩
  · exact hself
  · rw [List.map_append, List.map_singleton] at hself ⊢
    rw [List.map_append, List.map_singleton, List.reverse_concat, List.getLast?_concat,
      List.dropLast_concat]
    dsimp only
    rw [kind_elementOf]
    rcases List.eq_nil_or_concat' xs with rfl | ⟨ys, b, rfl⟩
    · -- Nothing is before the last child.
      by_cases hk : (d.forest.kind c.id == .endSelectCaseStmt) = true
      · rw [if_pos hk]
        exact hself
      · rw [if_neg hk]
        exact hself
    · rw [List.map_append, List.map_singleton, List.reverse_concat]
      dsimp only
      by_cases hk : (d.forest.kind c.id == .endSelectCaseStmt) = true
      · have hs' : d.forest.Holds (.node i (ys ++ b :: [c])) := by simpa using hs
        have hb : b ∈ ys ++ b :: [c] := by simp
        have hn : p.keepsLine d.forest (some c.id) =
            Element.keepsLine p (some (d.forest.elementOf c)) :=
          keepsLine_elementOf p d.forest (some c)
        have hset := (becomes_setLevel (hs'.child hb) hn level).of_child hs'
        rw [if_pos hk, if_pos hk, List.map_append, List.map_singleton, List.modifyLast_concat]
        simpa using hset
      · rw [if_neg hk, if_neg hk]
        exact hself

/-! ## One shape -/

/-- On its way from `f`, the walk is at the shape `s`, which denotes `e`; the shapes before it, of
which there is at most one, denote what `q` says. -/
structure Visiting (f g : Forest) (previous : Option Shape) (s : Shape) (q : Shape → Element)
    (e : Element) : Prop where
  holds : f.Holds s
  holds_previous : ∀ t ∈ previous, f.Holds t
  apart : ∀ t ∈ previous, List.Disjoint t.preorder s.preorder
  retailed : f.Retailed g ((previous.toList ++ [s]).flatMap Shape.preorder)
  elementOf_eq : g.elementOf s = e
  previous_eq : ∀ t ∈ previous, g.elementOf t = q t

namespace Visiting

variable {f g h : Forest} {previous : Option Shape} {q : Shape → Element} {e e' : Element}

/-- A change in the visited shape. -/
theorem here (hv : Visiting f g previous s q e) (hb : g.Becomes h s e') :
    Visiting f h previous s q e' := by
  refine ⟨hv.holds, hv.holds_previous, hv.apart, hv.retailed.trans (hb.retailed.mono ?_),
    hb.elementOf_eq, fun t ht => ?_⟩
  · intro j hj
    exact List.mem_flatMap.mpr ⟨s, by simp, hj⟩
  · rw [hb.retailed.elementOf_eq (hv.apart t ht), hv.previous_eq t ht]

/-- A change in the shape before. -/
theorem back {t : Shape} (hv : Visiting f g (some t) s q e) (hb : g.Becomes h t e')
    {q' : Shape → Element} (hq : q' t = e') : Visiting f h (some t) s q' e := by
  refine ⟨hv.holds, hv.holds_previous, hv.apart, hv.retailed.trans (hb.retailed.mono ?_), ?_, ?_⟩
  · intro j hj
    exact List.mem_flatMap.mpr ⟨t, by simp, hj⟩
  · rw [hb.retailed.elementOf_eq fun j hj ht => hv.apart t rfl ht hj, hv.elementOf_eq]
  · rintro t' ht
    obtain rfl := Option.mem_some_iff.mp ht
    rw [hb.elementOf_eq, hq]

theorem keepsLine_eq (hv : Visiting f g previous s q e) :
    p.keepsLine g (some s.id) = Element.keepsLine p (some (f.elementOf s)) := by
  rw [hv.retailed.keepsLine_eq]
  exact keepsLine_elementOf p f (some s)

theorem setLevelAfterLast (hv : Visiting f d.forest previous s q e) (level : Nat) :
    Visiting f (p.setLevelAfterLast d (previous.map Shape.id) level s.id).forest previous s
      (fun t => (q t).setLevelAfterLast p level (f.elementOf s)) e := by
  cases previous with
  | none => exact { hv with previous_eq := by simp }
  | some t =>
    refine hv.back (becomes_setLevelAfterLast (hv.retailed.holds (hv.holds_previous t rfl))
      hv.keepsLine_eq level) ?_
    rw [hv.previous_eq t rfl]

theorem closeAt (hv : Visiting f d.forest previous s q e) (inside : Option NodeId) (level : Nat) :
    Visiting f (p.closeAt d inside (previous.map Shape.id) level s.id).forest previous s
      (fun t =>
        if (f.elementOf s).isCloser (inside.map f.tag) then
          (q t).setLevel p level (some (f.elementOf s))
        else q t) e := by
  cases previous with
  | none => exact { hv with previous_eq := by simp }
  | some t =>
    rw [Option.map_some, IndentParams.closeAt, hv.retailed.isCloser_eq, isCloser_elementOf]
    split
    · refine hv.back (becomes_setLevel (hv.retailed.holds (hv.holds_previous t rfl))
        hv.keepsLine_eq level) ?_
      rw [hv.previous_eq t rfl]
    · exact hv

end Visiting

/-- What the store shows below a shape after the walk is what indenting the element gives. -/
def FollowsBelow (p : IndentParams) (s : Shape) : Prop :=
  ∀ (d : Draft) (level : Nat) (inside : Option NodeId), d.forest.Holds s →
    d.forest.Becomes (p.indentBelow level inside s d).forest s
      { d.forest.elementOf s with
        children := (d.forest.elementOf s).indentBelow p level (inside.map d.forest.tag) }

/-- What the walk does when it visits `s`, with `next` after it. -/
def visit (p : IndentParams) (level : Nat) (inside : Option NodeId)
    (inSelect : Bool) (current : Nat)
    (previous : Option NodeId) (s : Shape) (next : Option NodeId) (d : Draft) : Draft :=
  let d := p.setLevel d s.id current next
  let d :=
    if inSelect then
      let d := p.setLevelAfterLast d previous (level + p.branch) s.id
      p.closeArm (p.indentBelow (level + 2 * p.branch) none s d) level s.id
    else if (d.forest.kind s.id).isContainer then
      let d :=
        if d.forest.startsInterBranch s.id then p.setLevelAfterLast d previous level s.id else d
      p.indentBelow current (innerConstruct d.forest s.id) s d
    else d
  p.closeAt d inside previous level s.id

theorem indentFrom_cons (level : Nat) (inside : Option NodeId) (inSelect : Bool) (current : Nat)
    (previous : Option NodeId) (s : Shape) (rest : List Shape) (d : Draft) :
    p.indentFrom level inside inSelect current previous (s :: rest) d =
      p.indentFrom level inside inSelect (p.levelAfter d.forest inside current s.id)
        (some s.id) rest
        (p.visit level inside inSelect (p.levelAfter d.forest inside current s.id) previous s
          (rest.head?.map Shape.id) d) := by
  rw [indentFrom]
  rfl

theorem visiting_visit (hs : FollowsBelow p s) (hheld : d.forest.Holds s) {previous : Option Shape}
    (hprevious : ∀ t ∈ previous, d.forest.Holds t)
    (hapart : ∀ t ∈ previous, List.Disjoint t.preorder s.preorder) (level : Nat)
    (inside : Option NodeId) (inSelect : Bool) (current : Nat) (next : Option Shape) :
    Visiting d.forest
      (p.visit level inside inSelect current (previous.map Shape.id) s (next.map Shape.id) d).forest
      previous s
      (fun t => (d.forest.elementOf t).leadTo p level (inside.map d.forest.tag) inSelect
        (some (d.forest.elementOf s)))
      ((d.forest.elementOf s).visit p level inSelect current (next.map d.forest.elementOf)) := by
  have hv₀ : Visiting d.forest d.forest previous s d.forest.elementOf (d.forest.elementOf s) :=
    ⟨hheld, hprevious, hapart, .refl _ _, rfl, fun _ _ => rfl⟩
  have hv₁ := hv₀.here (becomes_setLevel hheld (keepsLine_elementOf p d.forest next) current)
  rw [visit, Element.visit]
  generalize p.setLevel d s.id current (next.map Shape.id) = d₁ at hv₁ ⊢
  have hk₁ : d₁.forest.kind s.id = (d.forest.elementOf s).kind := by
    rw [hv₁.retailed.kind_eq, kind_elementOf]
  have hstarts : d₁.forest.startsInterBranch s.id = (d.forest.elementOf s).startsInterBranch := by
    rw [hv₁.retailed.startsInterBranch_eq, startsInterBranch_elementOf hheld.carries]
  -- The two ways down end with the same look at a closing statement.
  refine Visiting.closeAt
    (q := fun t => (d.forest.elementOf t).leadToBranch p level inSelect (d.forest.elementOf s))
    ?_ inside level
  cases inSelect with
  | true =>
    have hv₂ := hv₁.setLevelAfterLast (p := p) (level + p.branch)
    have hv₃ := hv₂.here (hs _ (level + 2 * p.branch) none (hv₂.retailed.holds hheld))
    have hv₄ := hv₃.here (becomes_closeArm (p := p) (hv₃.retailed.holds hheld) level)
    rw [hv₃.elementOf_eq, hv₂.elementOf_eq, Element.setLevel,
      Element.indentBelow_with_tail] at hv₄
    exact hv₄
  | false =>
    rw [if_neg Bool.false_ne_true, if_neg Bool.false_ne_true, hk₁]
    by_cases hk : (d.forest.elementOf s).kind.isContainer = true
    · rw [if_pos hk, if_pos hk, hstarts]
      have hv₂ : Visiting d.forest
          (if (d.forest.elementOf s).startsInterBranch then
            p.setLevelAfterLast d₁ (previous.map Shape.id) level s.id else d₁).forest previous s
          (fun t => (d.forest.elementOf t).leadToBranch p level false (d.forest.elementOf s))
          ((d.forest.elementOf s).setLevel p current (next.map d.forest.elementOf)) := by
        simp only [Element.leadToBranch, hk, Bool.true_and, Bool.false_eq_true, if_false]
        split
        · exact hv₁.setLevelAfterLast level
        · exact hv₁
      generalize (if (d.forest.elementOf s).startsInterBranch then
        p.setLevelAfterLast d₁ (previous.map Shape.id) level s.id else d₁) = d₂ at hv₂ ⊢
      have hv₃ :=
        hv₂.here (hs d₂ current (innerConstruct d₂.forest s.id) (hv₂.retailed.holds hheld))
      rw [innerConstruct_elementOf, hv₂.elementOf_eq, Element.setLevel,
        Element.indentBelow_with_tail] at hv₃
      exact hv₃
    · rw [if_neg hk, if_neg hk]
      refine { hv₁ with previous_eq := fun t ht => ?_ }
      rw [hv₁.previous_eq t ht]
      simp only [Element.leadToBranch, hk, Bool.false_and, Bool.false_eq_true, if_false]

/-! ## All shapes -/

theorem indentFrom_spec {cs : List Shape} (ih : ∀ s ∈ cs, FollowsBelow p s)
    (previous : Option Shape) {d d' : Draft} (hheld : ∀ s ∈ previous.toList ++ cs, d.forest.Holds s)
    (hnodup : ((previous.toList ++ cs).flatMap Shape.preorder).Nodup) {level : Nat}
    {inside : Option NodeId} {inSelect : Bool} {current : Nat}
    (hd : d' = p.indentFrom level inside inSelect current (previous.map Shape.id) cs d) :
    d.forest.Retailed d'.forest ((previous.toList ++ cs).flatMap Shape.preorder) ∧
      (∀ t ∈ previous, d'.forest.elementOf t =
        (d.forest.elementOf t).leadTo p level (inside.map d.forest.tag) inSelect
          (cs.map d.forest.elementOf).head?) ∧
      cs.map d'.forest.elementOf =
        Element.indentAll p level (inside.map d.forest.tag) inSelect current
          (cs.map d.forest.elementOf) := by
  induction cs generalizing previous d current with
  | nil =>
    rw [indentFrom] at hd
    subst hd
    exact ⟨.refl _ _, fun _ _ => rfl, rfl⟩
  | cons s rest ihrest =>
    have hs : s ∈ previous.toList ++ s :: rest := List.mem_append_right _ List.mem_cons_self
    have hsplit : ((previous.toList ++ [s]).flatMap Shape.preorder ++
        rest.flatMap Shape.preorder).Nodup := by
      rw [← List.flatMap_append, List.append_assoc]
      exact hnodup
    rw [List.flatMap_append, List.nodup_append'] at hnodup
    obtain ⟨_, hlater, hapart⟩ := hnodup
    have hrest := List.disjoint_of_nodup_append hsplit
    have hmem : ∀ t ∈ previous, t ∈ previous.toList := fun t ht => Option.mem_toList.mpr ht
    rw [indentFrom_cons] at hd
    have hv := visiting_visit (ih s List.mem_cons_self) (hheld s hs)
      (fun t ht => hheld t (List.mem_append_left _ (hmem t ht)))
      (fun t ht j hj hjs => hapart (List.mem_flatMap.mpr ⟨t, hmem t ht, hj⟩)
        (List.mem_flatMap.mpr ⟨s, List.mem_cons_self, hjs⟩))
      level inside inSelect (p.levelAfter d.forest inside current s.id) rest.head?
    generalize p.visit level inside inSelect (p.levelAfter d.forest inside current s.id)
      (previous.map Shape.id) s (rest.head?.map Shape.id) d = b at hd hv
    obtain ⟨hr, hlead, hall⟩ := ihrest (fun t ht => ih t (List.mem_cons_of_mem _ ht))
      (some s) (d := b)
      (fun t ht => hv.retailed.holds (hheld t (List.mem_append_right _ ht))) hlater hd
    -- The shapes that are still to come are as they were.
    have hsame : rest.map b.forest.elementOf = rest.map d.forest.elementOf :=
      hv.retailed.map_elementOf_eq hrest
    have hinside : inside.map b.forest.tag = inside.map d.forest.tag := by
      cases inside with
      | none => rfl
      | some c => exact congrArg some (hv.retailed.tag_eq c)
    rw [hsame, hinside] at hlead hall
    refine ⟨?_, fun t ht => ?_, ?_⟩
    · refine (hv.retailed.mono fun j hj => ?_).trans (hr.mono fun j hj => ?_)
      · rw [List.flatMap_append, List.mem_append] at hj ⊢
        exact hj.imp id fun h => by simpa using Or.inl h
      · rw [List.flatMap_append, List.mem_append]
        exact Or.inr hj
    · have hkept : d'.forest.elementOf t = b.forest.elementOf t :=
        hr.elementOf_eq fun j hj hjs => hapart (List.mem_flatMap.mpr ⟨t, hmem t ht, hj⟩) hjs
      rw [hkept, hv.previous_eq t ht]
      rfl
    · rw [List.map_cons, List.map_cons, Element.indentAll_cons, hlead s rfl, hv.elementOf_eq, hall,
        levelAfter_elementOf, List.head?_map]

theorem followsBelow (p : IndentParams) (s : Shape) : FollowsBelow p s := by
  induction s using Shape.induct with
  | h i cs ih =>
    intro d level inside hheld
    obtain ⟨_, _, _, hi, hnodup⟩ := holds_node.mp hheld
    rw [indentBelow, elementOf_node, Element.indentBelow]
    generalize hd : p.indentFrom level inside _ level none cs d = d'
    obtain ⟨hr, _, hall⟩ := indentFrom_spec ih none (fun s hs => hheld.child hs) hnodup hd.symm
    refine ⟨hr.mono ?_, ?_⟩
    · rw [Shape.preorder_node]
      exact List.subset_cons_self _ _
    · -- The top is not among the nodes whose tails may have changed.
      have htop := hr.frame i hi
      rw [elementOf_node, hall, tag, text, tail, htop]
      rfl

end IndentParams

open Forest

/-- Indenting a tree gives it the tails of the indented element. -/
theorem toElement_indentTree (p : IndentParams) (e : Element) :
    (indentTree p (ofElement e)).forest.toElement =
      { e with children := e.indentBelow p 0 none } := by
  have hf := holds_ofElement e
  have hs : (e.shapeFrom 0).id = root := e.id_shapeFrom 0
  have hb := p.followsBelow (e.shapeFrom 0) { forest := ofElement e } 0 none hf
  have hheld := hb.retailed.holds hf
  rw [elementOf_ofElement] at hb
  rw [indentTree, indentSubtree, ← hs, hf.shape_eq, hheld.toElement_eq hs, hb.elementOf_eq]
  rfl

end FortranLayout
