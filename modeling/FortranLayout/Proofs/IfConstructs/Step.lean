import FortranLayout.Proofs.Forest.Reshaped
import FortranLayout.Proofs.IfConstructs.Conversion

/-!
# One conversion in the store

The parts of a one-line IF are found in the store where they are found in the element that it holds
(`Forest.conversion?_elementOf`). `Forest.Constructed` lists what the nodes are after a conversion.
-/

namespace FortranLayout

open Forest (thenTail)
open Text (lineBreak)

namespace Forest

variable {f g : Forest} {s : Shape} {q : IfParts Shape} {i j level : Nat}

/-! ## Parts of a shape -/

/-- The parts of a one-line IF at the top of a shape. -/
def parts? (f : Forest) (s : Shape) : Option (IfParts Shape) :=
  ifParts? (fun x => f.kind x.id) Shape.children s

theorem children_elementOf (f : Forest) (s : Shape) :
    (f.elementOf s).children = s.children.map f.elementOf := by
  cases s
  simp [Shape.children]

theorem ifParts?_elementOf (f : Forest) (s : Shape) :
    ifParts? Element.kind Element.children (f.elementOf s) = (f.parts? s).map (·.map f.elementOf) :=
  ifParts?_map (kind_elementOf f) (children_elementOf f) s

theorem map_kind_preorder (f : Forest) (s : Shape) :
    s.preorder.map f.kind = (f.elementOf s).subelements.map Element.kind := by
  induction s using Shape.induct with
  | h i cs ih =>
    rw [Element.subelements_eq, List.map_cons, kind_elementOf, children_elementOf,
      Shape.preorder_node, List.map_cons, List.map_flatMap, List.map_flatMap, List.flatMap_map]
    exact congrArg _ (List.flatMap_congr ih)

theorem hasBelow_eq (hf : f.Holds s) (k : Kind) :
    f.hasBelow s.id k = (f.elementOf s).subelements.tail.any (·.kind == k) := by
  have hmap : s.preorder.tail.map f.kind = (f.elementOf s).subelements.tail.map Element.kind := by
    rw [List.map_tail, List.map_tail, map_kind_preorder]
  have hany := congrArg (List.any · (· == k)) hmap
  rw [List.any_map, List.any_map] at hany
  rw [hasBelow, findBelow?, descendants, hf.shape_eq, List.isSome_find?]
  exact hany

theorem children_id (hf : f.Carries s) : f.children s.id = s.children.map Shape.id := by
  obtain ⟨i, cs⟩ := s
  exact (carries_node.mp hf).2.1

theorem Carries.child (hf : f.Carries s) {c : Shape} (hc : c ∈ s.children) : f.Carries c := by
  obtain ⟨i, cs⟩ := s
  exact (carries_node.mp hf).2.2 c hc

theorem childOfKind?_eq (hf : f.Carries s) (k : Kind) :
    f.childOfKind? s.id k = (s.children.find? fun c => f.kind c.id == k).map Shape.id := by
  rw [childOfKind?, children_id hf, List.find?_map]
  rfl

theorem oneLineIf?_eq (hf : f.Carries s) :
    f.oneLineIf? s.id =
      (f.parts? s).map fun q => (q.condition.id, q.action.id, q.statement.id) := by
  rw [oneLineIf?, parts?, ifParts?, childOfKind?_eq hf, childOfKind?_eq hf]
  cases s.children.find? fun c => f.kind c.id == .condition with
  | none => rfl
  | some condition =>
    cases haction : s.children.find? fun c => f.kind c.id == .actionStmt with
    | none => rfl
    | some action =>
      have hfirst : f.firstChild? action.id = action.children.head?.map Shape.id := by
        rw [firstChild?, children_id (hf.child (List.mem_of_find?_eq_some haction)), List.head?_map]
      simp only [Option.map_some, Option.bind_eq_bind, Option.bind_some, hfirst]
      cases action.children.head? <;> rfl

/-- A statement is converted in the element if and only if the store is found to have its parts. -/
theorem conversion?_elementOf (hf : f.Holds s) :
    (f.elementOf s).conversion? =
      if f.kind s.id == .ifStmt && !f.hasBelow s.id .cycleStmt then
        (f.parts? s).map (·.map f.elementOf)
      else none := by
  rw [Element.conversion?, ifParts?_elementOf, hasBelow_eq hf, kind_elementOf]

/-! ## A statement that is not converted -/

theorem convertIf_eq_self {d : Draft} (hd : d.forest.Holds s)
    (h : (d.forest.elementOf s).conversion? = none) : convertIf d none s.id = d := by
  rw [conversion?_elementOf hd] at h
  rw [convertIf]
  split
  · rename_i hguard
    rw [if_pos hguard, Option.map_eq_none_iff] at h
    rw [oneLineIf?_eq hd.carries, h]
    rfl
  · rfl

/-! ## The nodes after a conversion -/

theorem node_add_of_eq (h : j = f.size) (n : Node) : (f.add n).node j = n := by
  rw [h, node_add_size]

/-- The store `g` is `f` with the construct of the one-line IF `i` put together in it, except that
the markers are still there. -/
structure Assembled (f g : Forest) (i c a st level : Nat) : Prop where
  size_eq : g.size = f.size + 3
  top : g.node i = ⟨"if-construct", "", f.tail i, ((f.children i).erase c).erase a⟩
  block : g.node f.size = ⟨"if-block", "", "", [f.size + 1, st, f.size + 2]⟩
  header : g.node (f.size + 1) = ⟨"if-then-stmt", f.text i, lineBreak (level + 2), [c]⟩
  closing : g.node (f.size + 2) = ⟨"end-if-stmt", "END IF", "", []⟩
  condition : g.node c = { f.node c with tail := thenTail (f.tail c) }
  statement : g.node st = { f.node st with tail := lineBreak level }
  frame : ∀ j : Nat, j < f.size → j ≠ i → j ≠ c → j ≠ a → j ≠ st → g.node j = f.node j

/-- Taking out the markers is the last but one of the edits. -/
theorem exists_assembled {c a st : Nat} (hi : i < f.size) (hc : c < f.size) (ha : a < f.size)
    (hst : st < f.size)
    (hic : i ≠ c) (hia : i ≠ a) (his : i ≠ st) (hca : c ≠ a) (hcs : c ≠ st) (has : a ≠ st)
    (level : Nat) :
    ∃ g, f.Assembled g i c a st level ∧
      f.toIfConstruct i c a st level =
        (((g.children i).filter (g.kind · == .continuation)).foldl
          (fun g marker => g.detach i marker) g).appendChild i f.size := by
  refine ⟨_, ?_, rfl⟩
  constructor
  case size_eq => simp
  -- Each node is followed through the edits: those of other nodes leave it alone.
  all_goals
    intros
    simp (disch := first
      | omega
      | simp only [size_appendChild, size_setTail, size_detach, size_setText, size_add, size_setTag]
        omega
      | simp) only [node_appendChild_of_ne, node_appendChild_self,
      node_detach_of_ne, node_detach_self, node_setTail_of_ne, node_setTail_self,
      node_setText_of_ne, node_setText_self, node_add_of_lt, node_add_of_eq, node_setTag_self,
      node_setTag_of_ne, tail, children, List.nil_append, List.cons_append]

theorem Assembled.kind_eq {c a st : Nat} (hg : f.Assembled g i c a st level) (hj : j < f.size)
    (hi : j ≠ i) (ha : j ≠ a) : g.kind j = f.kind j := by
  by_cases hc : j = c
  · rw [hc, kind, hg.condition]
    rfl
  · by_cases hst : j = st
    · rw [hst, kind, hg.statement]
      rfl
    · rw [kind, hg.frame j hj hi hc ha hst]
      rfl

theorem map_id_eraseP {cs : List Shape} {c : Shape} {r : Shape → Bool} (h : cs.find? r = some c)
    (hn : (cs.map Shape.id).Nodup) : (cs.eraseP r).map Shape.id = (cs.map Shape.id).erase c.id := by
  induction cs with
  | nil => cases h
  | cons d cs ih =>
    rw [List.map_cons, List.nodup_cons] at hn
    by_cases hd : r d = true
    · rw [List.find?_cons_of_pos hd, Option.some.injEq] at h
      rw [List.eraseP_cons_of_pos hd, List.map_cons, h, List.erase_cons_head]
    · rw [List.find?_cons_of_neg hd] at h
      have hne : d.id ≠ c.id := fun he =>
        hn.1 (he ▸ List.mem_map_of_mem (List.mem_of_find?_eq_some h))
      rw [List.eraseP_cons_of_neg hd, List.map_cons, List.map_cons, ih h hn.2,
        List.erase_cons_tail (by simpa using hne)]

theorem filter_not_mem_filter (xs : List Nat) (r : Nat → Bool) :
    xs.filter (· ∉ xs.filter r) = xs.filter (!r ·) := by
  refine List.filter_congr fun x hx => ?_
  cases hr : r x <;> simp [hx, hr]

/-! ## What a conversion works on -/

/-- What is left to convert below a statement: its children, and in place of the action's wrapper
the children of that. -/
def pieces (s : Shape) (q : IfParts Shape) : List Shape :=
  s.children.flatMap fun c => if c.id = q.action.id then c.children else [c]

theorem preorder_eq_cons (s : Shape) : s.preorder = s.id :: s.children.flatMap Shape.preorder := by
  cases s
  simp [Shape.children]

theorem Holds.nodup_children (hf : f.Holds s) : (s.children.flatMap Shape.preorder).Nodup := by
  have hn := hf.nodup
  rw [preorder_eq_cons, List.nodup_cons] at hn
  exact hn.2

section Pieces

variable {rest : List Shape} (hf : f.Holds s)
  (hq : q.FoundIn (fun x => f.kind x.id) Shape.children s rest)
include hf hq

theorem perm_pieces :
    (pieces s q).Perm (q.condition :: q.action.children ++ (q.others ++ q.markers)) := by
  have hids : (q.condition.id :: q.action.id :: (q.others ++ q.markers).map Shape.id).Nodup :=
    (hq.children_perm.map Shape.id).nodup_iff.mp (Shape.nodup_map_id hf.nodup_children)
  rw [List.nodup_cons, List.nodup_cons, List.mem_cons, not_or] at hids
  obtain ⟨⟨hca, _⟩, ha, _⟩ := hids
  have hrest : (q.others ++ q.markers).flatMap
      (fun c => if c.id = q.action.id then c.children else [c]) = q.others ++ q.markers := by
    conv_rhs => rw [← List.flatMap_singleton' (q.others ++ q.markers)]
    refine List.flatMap_congr fun c hc => if_neg fun he => ha ?_
    exact he ▸ List.mem_map_of_mem hc
  refine (hq.children_perm.flatMap_right _).trans ?_
  rw [List.flatMap_cons, List.flatMap_cons, if_neg hca, if_pos rfl, hrest]
  exact List.Perm.refl _

theorem perm_preorder :
    s.preorder.Perm (s.id :: q.action.id :: (pieces s q).flatMap Shape.preorder) := by
  rw [preorder_eq_cons]
  refine List.Perm.cons _ ?_
  refine (hq.children_perm.flatMap_right _).trans ?_
  refine List.Perm.trans ?_ (((perm_pieces hf hq).flatMap_right _).symm.cons _)
  simp only [List.flatMap_cons, List.cons_append, List.flatMap_append, preorder_eq_cons q.action]
  exact List.perm_middle

theorem mem_pieces_condition : q.condition ∈ pieces s q :=
  (perm_pieces hf hq).mem_iff.mpr (by simp)

theorem mem_pieces_statement : q.statement ∈ pieces s q :=
  (perm_pieces hf hq).mem_iff.mpr (by rw [hq.action_children]; simp)

theorem mem_pieces_others {o : Shape} (ho : o ∈ q.others) : o ∈ pieces s q :=
  (perm_pieces hf hq).mem_iff.mpr (by simp [ho])

theorem mem_pieces_parts : ∀ x ∈ q.condition :: q.statement :: q.others, x ∈ pieces s q := by
  simp only [List.forall_mem_cons]
  exact ⟨mem_pieces_condition hf hq, mem_pieces_statement hf hq,
    fun _ ho => mem_pieces_others hf hq ho⟩

theorem mem_preorder_of_piece {p : Shape} (hp : p ∈ pieces s q) {j : Nat} (hj : j ∈ p.preorder) :
    j ∈ s.preorder :=
  (perm_preorder hf hq).mem_iff.mpr
    (List.mem_cons_of_mem _ (List.mem_cons_of_mem _ (List.mem_flatMap.mpr ⟨p, hp, hj⟩)))

theorem nodup_pieces :
    s.id ≠ q.action.id ∧ s.id ∉ (pieces s q).flatMap Shape.preorder ∧
      q.action.id ∉ (pieces s q).flatMap Shape.preorder ∧
      ((pieces s q).flatMap Shape.preorder).Nodup := by
  have hn := (perm_preorder hf hq).nodup_iff.mp hf.nodup
  simpa [List.nodup_cons, not_or, and_assoc] using hn

/-- The nodes of the pieces are neither the statement itself nor the wrapper of its action. -/
theorem node_of_pieces {j : Nat} (hj : j ∈ (pieces s q).flatMap Shape.preorder) :
    j < f.size ∧ j ≠ s.id ∧ j ≠ q.action.id := by
  obtain ⟨_, his, hap, _⟩ := nodup_pieces hf hq
  refine ⟨hf.carries.mem_lt j ((perm_preorder hf hq).mem_iff.mpr (by simp [hj])), ?_, ?_⟩
  · exact fun he => his (he ▸ hj)
  · exact fun he => hap (he ▸ hj)

theorem nodup_part_ids :
    (q.condition.id :: q.statement.id :: q.others.map Shape.id).Nodup := by
  have hids := ((perm_pieces hf hq).map Shape.id).nodup_iff.mp
    (Shape.nodup_map_id (nodup_pieces hf hq).2.2.2)
  rw [hq.action_children, List.cons_append, List.cons_append, List.map_cons, List.map_cons] at hids
  refine hids.sublist ((List.Sublist.cons_cons _ ?_).cons_cons _)
  refine List.Sublist.map _ ?_
  exact (List.sublist_append_left _ _).trans (List.sublist_append_right _ _)

/-- The children that are left when the condition and the action are taken out. -/
theorem children_erase_parts :
    ((f.children s.id).erase q.condition.id).erase q.action.id = rest.map Shape.id := by
  have hids := Shape.nodup_map_id hf.nodup_children
  rw [children_id hf.carries, ← map_id_eraseP hq.condition hids, ← hq.rest_eq,
    map_id_eraseP hq.action]
  rw [map_id_eraseP hq.condition hids]
  exact hids.erase _

theorem nodup_rest_ids : (rest.map Shape.id).Nodup := by
  rw [← children_erase_parts hf hq, children_id hf.carries]
  exact ((Shape.nodup_map_id hf.nodup_children).erase _).erase _

end Pieces

/-- What the nodes of `g` are when the one-line IF at the top of `s` is converted. -/
structure Constructed (f g : Forest) (s : Shape) (q : IfParts Shape) (level : Nat) : Prop where
  size_eq : g.size = f.size + 3
  top : g.node s.id = ⟨"if-construct", "", f.tail s.id, q.others.map Shape.id ++ [f.size]⟩
  block : g.node f.size = ⟨"if-block", "", "", [f.size + 1, q.statement.id, f.size + 2]⟩
  header : g.node (f.size + 1) =
    ⟨"if-then-stmt", f.text s.id, lineBreak (level + 2), [q.condition.id]⟩
  closing : g.node (f.size + 2) = ⟨"end-if-stmt", "END IF", "", []⟩
  condition : g.node q.condition.id =
    { f.node q.condition.id with tail := thenTail (f.tail q.condition.id) }
  statement : g.node q.statement.id = { f.node q.statement.id with tail := lineBreak level }
  frame : ∀ j : Nat, j < f.size → j ≠ s.id → j ≠ q.condition.id → j ≠ q.action.id →
    j ≠ q.statement.id → g.node j = f.node j

theorem constructed_toIfConstruct {rest : List Shape} (hf : f.Holds s)
    (hq : q.FoundIn (fun x => f.kind x.id) Shape.children s rest) (level : Nat) :
    f.Constructed (f.toIfConstruct s.id q.condition.id q.action.id q.statement.id level) s q
      level := by
  have hia := (nodup_pieces hf hq).1
  have hi := hf.carries.mem_lt s.id s.id_mem_preorder
  have ha := hf.carries.mem_lt q.action.id ((perm_preorder hf hq).mem_iff.mpr (by simp))
  obtain ⟨hc, hcs, hca⟩ := node_of_pieces hf hq (Shape.id_mem_flatMap (mem_pieces_condition hf hq))
  obtain ⟨hst, hsts, hsta⟩ :=
    node_of_pieces hf hq (Shape.id_mem_flatMap (mem_pieces_statement hf hq))
  have hcst : q.condition.id ≠ q.statement.id := fun he =>
    (List.nodup_cons.mp (nodup_part_ids hf hq)).1 (he ▸ List.mem_cons_self)
  obtain ⟨g, hg, heq⟩ :=
    exists_assembled hi hc ha hst hcs.symm hia hsts.symm hca hcst hsta.symm level
  have htop := hg.top
  rw [children_erase_parts hf hq] at htop
  have hkind : ∀ r ∈ rest, g.kind r.id = f.kind r.id := by
    intro r hr
    have hp : r ∈ pieces s q :=
      (perm_pieces hf hq).mem_iff.mpr (List.mem_append_right _ (hq.rest_perm.mem_iff.mp hr))
    obtain ⟨hr, hrs, hra⟩ := node_of_pieces hf hq (Shape.id_mem_flatMap hp)
    exact hg.kind_eq hr hrs hra
  have hothers : (rest.map Shape.id).filter
      (· ∉ (g.children s.id).filter (g.kind · == .continuation)) = q.others.map Shape.id := by
    have hchildren : g.children s.id = rest.map Shape.id := congrArg Node.children htop
    rw [hchildren, filter_not_mem_filter, hq.others, List.filter_map]
    refine congrArg _ (List.filter_congr fun r hr => ?_)
    exact congrArg (· != Kind.continuation) (hkind r hr)
  have hsize := hg.size_eq
  have hself : ∀ j : Nat, j ≠ s.id →
      (f.toIfConstruct s.id q.condition.id q.action.id q.statement.id level).node j = g.node j := by
    intro j hj
    rw [heq, node_appendChild_of_ne hj, node_foldl_detach_of_ne hj]
  refine ⟨?_, ?_, ?_, ?_, ?_, ?_, ?_, ?_⟩
  · rw [heq, size_appendChild, size_foldl_detach, hsize]
  · rw [heq, node_appendChild_self (by rw [size_foldl_detach]; omega),
      node_foldl_detach_self (by omega) (by rw [htop]; exact nodup_rest_ids hf hq), htop, hothers]
  · rw [hself _ (by omega), hg.block]
  · rw [hself _ (by omega), hg.header]
  · rw [hself _ (by omega), hg.closing]
  · rw [hself _ hcs, hg.condition]
  · rw [hself _ hsts, hg.statement]
  · intro j hj hjs hjc hja hjst
    rw [hself j hjs, hg.frame j hj hjs hjc hja hjst]

/-- What a visit does to a statement that is converted. -/
theorem exists_constructed {d : Draft} {p : IfParts Element} (hd : d.forest.Holds s)
    (h : (d.forest.elementOf s).conversion? = some p) :
    ∃ q rest level g, q.FoundIn (fun x => d.forest.kind x.id) Shape.children s rest ∧
      p = q.map d.forest.elementOf ∧ d.forest.Constructed g s q level ∧
      convertIf d none s.id = ⟨g, d.edits + 1⟩ := by
  rw [conversion?_elementOf hd] at h
  split at h
  · rename_i hguard
    obtain ⟨q, hq, rfl⟩ := Option.map_eq_some_iff.mp h
    obtain ⟨rest, hrest⟩ := exists_foundIn hq
    refine ⟨q, rest, d.forest.lineIndent s.id none, _, hrest, rfl,
      constructed_toIfConstruct hd hrest _, ?_⟩
    rw [convertIf, if_pos hguard, oneLineIf?_eq hd.carries, hq]
    rfl
  · cases h

namespace Constructed

variable {rest : List Shape}

/-- Apart from the statement itself and the wrapper of its action, only tails change. -/
theorem node_eq (hg : f.Constructed g s q level) (hj : j < f.size) (hs : j ≠ s.id)
    (ha : j ≠ q.action.id) : g.node j = { f.node j with tail := g.tail j } := by
  by_cases hc : j = q.condition.id
  · rw [tail, hc, hg.condition]
  · by_cases hst : j = q.statement.id
    · rw [tail, hst, hg.statement]
    · rw [tail, hg.frame j hj hs hc ha hst]

variable (hf : f.Holds s) (hq : q.FoundIn (fun x => f.kind x.id) Shape.children s rest)
  (hg : f.Constructed g s q level)
include hf hq hg

theorem node_outside (hj : j < f.size) (hs : j ∉ s.preorder) : g.node j = f.node j := by
  have hne : ∀ x ∈ s.id :: q.action.id :: (pieces s q).flatMap Shape.preorder, j ≠ x :=
    fun x hx he => hs ((perm_preorder hf hq).mem_iff.mpr (he ▸ hx))
  simp only [List.forall_mem_cons] at hne
  obtain ⟨hi, ha, hp⟩ := hne
  exact hg.frame j hj hi (hp _ (Shape.id_mem_flatMap (mem_pieces_condition hf hq))) ha
    (hp _ (Shape.id_mem_flatMap (mem_pieces_statement hf hq)))

theorem node_piece {p : Shape} (hp : p ∈ pieces s q) (hj : j ∈ p.preorder) :
    g.node j = { f.node j with tail := g.tail j } := by
  obtain ⟨hlt, hs, ha⟩ := node_of_pieces hf hq (List.mem_flatMap.mpr ⟨p, hp, hj⟩)
  exact hg.node_eq hlt hs ha

/-- Of a piece, only the tail changes. -/
theorem elementOf_piece {p : Shape} (hp : p ∈ pieces s q) :
    g.elementOf p = { f.elementOf p with tail := g.tail p.id } := by
  have hn := (nodup_pieces hf hq).2.2.2
  have htop := node_piece hf hq hg hp p.id_mem_preorder
  obtain ⟨i, cs⟩ := p
  have hbelow : ∀ j : Nat, j ∈ cs.flatMap Shape.preorder → g.node j = f.node j := by
    intro j hj
    have hjp : j ∈ (Shape.node i cs).preorder := by
      rw [Shape.preorder_node]
      exact List.mem_cons_of_mem _ hj
    -- A node below the top of a piece is not the top of a piece.
    have hne : ∀ t ∈ pieces s q, j ≠ t.id := by
      rintro t ht rfl
      have heq := Shape.eq_of_common_node hn hp ht hjp t.id_mem_preorder
      have hnp := (List.nodup_flatMap.mp hn).1 _ hp
      rw [Shape.preorder_node, List.nodup_cons] at hnp
      rw [← heq] at hj
      exact hnp.1 hj
    obtain ⟨hlt, hs, ha⟩ := node_of_pieces hf hq (List.mem_flatMap.mpr ⟨_, hp, hjp⟩)
    exact hg.frame j hlt hs (hne _ (mem_pieces_condition hf hq)) ha
      (hne _ (mem_pieces_statement hf hq))
  rw [elementOf_of_below hbelow, elementOf_node, tag, text]
  rw [Shape.id_node] at htop
  rw [htop]
  rfl

theorem elementOf_condition : g.elementOf q.condition =
    { f.elementOf q.condition with tail := thenTail (f.elementOf q.condition).tail } := by
  rw [elementOf_piece hf hq hg (mem_pieces_condition hf hq), tail_elementOf, tail, hg.condition]

theorem elementOf_statement : g.elementOf q.statement =
    { f.elementOf q.statement with tail := lineBreak level } := by
  rw [elementOf_piece hf hq hg (mem_pieces_statement hf hq), tail, hg.statement]

theorem elementOf_other {o : Shape} (ho : o ∈ q.others) : g.elementOf o = f.elementOf o := by
  have hids := nodup_part_ids hf hq
  rw [List.nodup_cons, List.nodup_cons, List.mem_cons, not_or] at hids
  obtain ⟨⟨_, hc⟩, hst, _⟩ := hids
  have ho' : o.id ∈ q.others.map Shape.id := List.mem_map_of_mem ho
  obtain ⟨hlt, hs, ha⟩ := node_of_pieces hf hq (Shape.id_mem_flatMap (mem_pieces_others hf hq ho))
  have hnode : g.node o.id = f.node o.id :=
    hg.frame o.id hlt hs (fun he => hc (he ▸ ho')) ha fun he => hst (he ▸ ho')
  have htail : g.tail o.id = (f.elementOf o).tail := by
    rw [tail_elementOf, tail, hnode]
    rfl
  rw [elementOf_piece hf hq hg (mem_pieces_others hf hq ho), htail]
  cases f.elementOf o
  rfl

end Constructed

end Forest

end FortranLayout
