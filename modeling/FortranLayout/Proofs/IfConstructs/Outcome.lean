import FortranLayout.Proofs.Forest.Parents
import FortranLayout.Proofs.IfConstructs.Refinement
import FortranLayout.Proofs.IfConstructs.Settled
import Mathlib.Data.List.Find

/-!
# What becomes of each node

Whether a statement is converted depends on the tree as it was at the beginning
(`Forest.Convertible`), although the statements around it have been converted before it is visited:
they change only tails below themselves. So each convertible statement becomes a construct
(`Forest.ConvertedAt`), the other nodes keep their tags, and nothing is left to convert
(`convertIfStatements_exact`).
-/

namespace FortranLayout

namespace Forest

variable {f f₁ g : Forest} {s t : Shape} {rest : List Shape} {q : IfParts Shape} {d : Draft}
  {i j level : Nat}

/-! ## Convertible statements -/

/-- Whether node `i` is a one-line IF that has a condition and an action, the first of its kind with
a child, and no CYCLE below it. -/
def Convertible (f : Forest) (i : NodeId) : Prop :=
  f.kind i = .ifStmt ∧ (∀ j ∈ (f.descendants i).tail, f.kind j ≠ .cycleStmt) ∧
    (f.childOfKind? i .condition).isSome = true ∧
    (f.childOfKind? i .actionStmt).any f.hasChildren = true

instance : DecidablePred f.Convertible := fun i =>
  inferInstanceAs
    (Decidable (f.kind i = .ifStmt ∧ (∀ j ∈ (f.descendants i).tail, f.kind j ≠ .cycleStmt) ∧
    (f.childOfKind? i .condition).isSome = true ∧
    (f.childOfKind? i .actionStmt).any f.hasChildren = true))

theorem convertible_iff : f.Convertible i ↔
    (f.kind i == .ifStmt && !f.hasBelow i .cycleStmt) = true ∧ (f.oneLineIf? i).isSome = true := by
  have hcycle : (∀ j ∈ (f.descendants i).tail, f.kind j ≠ .cycleStmt) ↔
      f.hasBelow i .cycleStmt = false := by
    rw [hasBelow, findBelow?, List.isSome_find?, List.any_eq_false]
    simp
  have hparts : (f.oneLineIf? i).isSome = true ↔ (f.childOfKind? i .condition).isSome = true ∧
      (f.childOfKind? i .actionStmt).any f.hasChildren = true := by
    rw [oneLineIf?]
    cases f.childOfKind? i .condition with
    | none => simp
    | some c =>
      cases f.childOfKind? i .actionStmt with
      | none => simp
      | some a => cases hchildren : f.children a <;> simp [firstChild?, hasChildren, hchildren]
  rw [Convertible, hcycle, hparts, Bool.and_eq_true, beq_iff_eq, Bool.not_eq_true', and_assoc]

theorem convertIf_of_not_convertible (h : ¬d.forest.Convertible i) : convertIf d none i = d := by
  rw [convertible_iff] at h
  rw [convertIf]
  split
  · rename_i hguard
    cases hparts : d.forest.oneLineIf? i with
    | none => rfl
    | some parts => exact absurd ⟨hguard, by rw [hparts]; rfl⟩ h
  · rfl

/-- In a tree without convertible statements nothing changes. -/
theorem convertIfStatements_eq_self (h : ∀ i ∈ f.preorder, ¬f.Convertible i) :
    convertIfStatements f = { forest := f } := by
  rw [convertIfStatements]
  have hvisited : ∀ i ∈ f.preorder.filter (f.kind · == .ifStmt), ¬f.Convertible i := fun i hi =>
    h i (List.mem_of_mem_filter hi)
  generalize f.preorder.filter (f.kind · == .ifStmt) = visited at hvisited
  induction visited with
  | nil => rfl
  | cons i visited ih =>
    obtain ⟨hi, hvisited⟩ := List.forall_mem_cons.mp hvisited
    rw [List.foldl_cons, convertIf_of_not_convertible (d := { forest := f }) hi]
    exact ih hvisited

/-- A statement is convertible in the store if it is in the element. -/
theorem Holds.convertible_iff (hf : f.Holds s) :
    f.Convertible s.id ↔ (f.elementOf s).conversion?.isSome = true := by
  rw [Forest.convertible_iff, oneLineIf?_eq hf.carries, conversion?_elementOf hf]
  split
  · rename_i hguard
    rw [and_iff_right hguard, Option.isSome_map, Option.isSome_map]
  · rename_i hguard
    exact iff_of_false (fun h => hguard h.1) (by simp)

theorem Holds.countP_convertible (hf : f.Holds s) :
    s.preorder.countP (f.Convertible ·) = (f.elementOf s).conversions := by
  induction s using Shape.induct with
  | h i cs ih =>
    have htop := hf.convertible_iff
    rw [Shape.id_node] at htop
    have hcs : (cs.flatMap Shape.preorder).countP (f.Convertible ·) =
        (cs.map fun c => (f.elementOf c).conversions).sum := by
      rw [List.countP_flatMap]
      exact congrArg List.sum (List.map_congr_left fun c hc => ih c hc (hf.child hc))
    rw [Shape.preorder_node, List.countP_cons, hcs, Element.conversions_eq,
      children_elementOf, List.map_map, Nat.add_comm]
    simp only [htop, Shape.children, Function.comp_def, decide_eq_true_eq]

/-! ## What becomes of a node -/

/-- Node `i` of `f` is a construct in `g`, made of the first condition of the statement and the
first child of its first action. The children that were there stay before the block, markers
excepted. -/
structure ConvertedAt (f g : Forest) (i condition action statement block header closing : NodeId) :
    Prop where
  condition_eq : f.childOfKind? i .condition = some condition
  action_eq : f.childOfKind? i .actionStmt = some action
  statement_eq : f.firstChild? action = some statement
  tag_eq : g.tag i = "if-construct"
  children_eq : g.children i =
    (((f.children i).erase condition).erase action).filter (f.kind · != .continuation) ++ [block]
  block_new : f.size ≤ block
  tag_block : g.tag block = "if-block"
  children_block : g.children block = [header, statement, closing]
  tag_header : g.tag header = "if-then-stmt"
  children_header : g.children header = [condition]
  tag_closing : g.tag closing = "end-if-stmt"
  children_closing : g.children closing = []
  no_marker : ∀ c ∈ g.children i, g.kind c ≠ .continuation

/-- A conversion is of the condition, the action and the statement that are found. -/
theorem ConvertedAt.parts_eq {condition action statement block header closing c a q : NodeId}
    (h : f.ConvertedAt g i condition action statement block header closing)
    (hc : f.childOfKind? i .condition = some c) (ha : f.childOfKind? i .actionStmt = some a)
    (hq : f.firstChild? a = some q) : condition = c ∧ action = a ∧ statement = q := by
  obtain rfl := Option.some.inj (h.condition_eq.symm.trans hc)
  obtain rfl := Option.some.inj (h.action_eq.symm.trans ha)
  exact ⟨rfl, rfl, Option.some.inj (h.statement_eq.symm.trans hq)⟩

/-- What becomes of node `i` of `f` in `g`: a convertible statement is converted, any other node
keeps its tag. -/
structure Outcome (f g : Forest) (i : NodeId) : Prop where
  converted : f.Convertible i → ∃ condition action statement block header closing,
    f.ConvertedAt g i condition action statement block header closing
  kept : ¬f.Convertible i → g.tag i = f.tag i

theorem Outcome.kind_ne_continuation (h : f.Outcome g i) (hi : f.kind i ≠ .continuation) :
    g.kind i ≠ .continuation := by
  by_cases hconv : f.Convertible i
  · obtain ⟨_, _, _, _, _, _, hat⟩ := h.converted hconv
    have hkind : g.kind i = Kind.ofTag "if-construct" := congrArg Kind.ofTag hat.tag_eq
    rw [hkind]
    decide
  · have hkind : g.kind i = f.kind i := congrArg Kind.ofTag (h.kept hconv)
    rwa [hkind]

theorem Outcome.of_kind_ne (hk : f.kind i ≠ .ifStmt) (htag : g.tag i = f.tag i) : f.Outcome g i :=
  ⟨fun h => absurd h.1 hk, fun _ => htag⟩

/-! ## Stores that agree below a node but for the tails -/

/-- The nodes of the shape `t` are the same in both stores, but for their tails. -/
def SameBelow (f f₁ : Forest) (t : Shape) : Prop :=
  ∀ k ∈ t.preorder, f₁.node k = { f.node k with tail := f₁.tail k }

namespace SameBelow

variable {k : Nat} {c : NodeId} {y : Kind}

theorem children_eq (h : f.SameBelow f₁ t) (hk : k ∈ t.preorder) :
    f₁.children k = f.children k := by
  rw [children, h k hk, children]

theorem tag_eq (h : f.SameBelow f₁ t) (hk : k ∈ t.preorder) : f₁.tag k = f.tag k := by
  rw [tag, h k hk, tag]

theorem kind_eq (h : f.SameBelow f₁ t) (hk : k ∈ t.preorder) : f₁.kind k = f.kind k :=
  congrArg Kind.ofTag (h.tag_eq hk)

theorem child_mem (hf : f.Holds t) (hc : c ∈ f.children t.id) : c ∈ t.preorder :=
  hf.carries.mem_of_child t.id_mem_preorder hc

theorem childOfKind?_eq (h : f.SameBelow f₁ t) (hf : f.Holds t) :
    f₁.childOfKind? t.id y = f.childOfKind? t.id y := by
  rw [childOfKind?, childOfKind?, h.children_eq t.id_mem_preorder]
  exact List.find?_congr fun c hc => by rw [h.kind_eq (child_mem hf hc)]

/-- The children of a child that is looked up are the same. -/
theorem children_childOfKind? (h : f.SameBelow f₁ t) (hf : f.Holds t)
    (hc : f.childOfKind? t.id y = some c) :
    f₁.children c = f.children c :=
  h.children_eq (child_mem hf (List.mem_of_find?_eq_some hc))

theorem convertible_iff (h : f.SameBelow f₁ t) (hf : f.Holds t) (hsize : f.size ≤ f₁.size) :
    f₁.Convertible t.id ↔ f.Convertible t.id := by
  have hf₁ : f₁.Holds t := ⟨hf.carries.congr_children hsize fun _ hk => h.children_eq hk, hf.nodup⟩
  have hcycle : (∀ j ∈ t.preorder.tail, f₁.kind j ≠ .cycleStmt) ↔ ∀ j ∈ t.preorder.tail,
      f.kind j ≠ .cycleStmt :=
    forall₂_congr fun j hj => by rw [h.kind_eq (List.mem_of_mem_tail hj)]
  have haction : (f.childOfKind? t.id .actionStmt).any f₁.hasChildren =
      (f.childOfKind? t.id .actionStmt).any f.hasChildren := by
    cases ha : f.childOfKind? t.id .actionStmt with
    | none => rfl
    | some a =>
      rw [Option.any_some, Option.any_some, hasChildren, h.children_childOfKind? hf ha, hasChildren]
  rw [Convertible, Convertible, descendants, descendants, hf₁.shape_eq, hf.shape_eq, hcycle,
    h.kind_eq t.id_mem_preorder, h.childOfKind?_eq hf, h.childOfKind?_eq hf, haction]

/-- What becomes of a node of `f₁` becomes of it from `f`. -/
theorem outcome (h : f.SameBelow f₁ t) (hf : f.Holds t) (hsize : f.size ≤ f₁.size)
    (hout : f₁.Outcome g t.id) : f.Outcome g t.id := by
  have hconvertible := h.convertible_iff hf hsize
  refine ⟨fun hconv => ?_, fun hconv => ?_⟩
  · obtain ⟨c, a, st, b, hd, cl, hat⟩ := hout.converted (hconvertible.mpr hconv)
    have hc := hat.condition_eq
    have ha := hat.action_eq
    have hst := hat.statement_eq
    have htop := hat.children_eq
    rw [h.childOfKind?_eq hf] at hc ha
    rw [firstChild?, h.children_childOfKind? hf ha] at hst
    rw [h.children_eq t.id_mem_preorder] at htop
    have hothers : (((f.children t.id).erase c).erase a).filter (f₁.kind · != .continuation) =
        (((f.children t.id).erase c).erase a).filter (f.kind · != .continuation) :=
      List.filter_congr fun k hk => by
        rw [h.kind_eq (child_mem hf (List.mem_of_mem_erase (List.mem_of_mem_erase hk)))]
    rw [hothers] at htop
    exact ⟨c, a, st, b, hd, cl, { hat with
      condition_eq := hc, action_eq := ha, statement_eq := hst, children_eq := htop
      block_new := Nat.le_trans hsize hat.block_new }⟩
  · rw [hout.kept (mt hconvertible.mp hconv), h.tag_eq t.id_mem_preorder]

end SameBelow

/-! ## The visits -/

theorem tag_setTag_of_ne (h : j ≠ i) (t : String) : (f.setTag i t).tag j = f.tag j :=
  congrArg Node.tag (node_setTag_of_ne h t)

theorem tag_add_of_lt (h : j < f.size) (n : Node) : (f.add n).tag j = f.tag j :=
  congrArg Node.tag (node_add_of_lt h n)

@[simp] theorem tag_detach (f : Forest) (p c j : NodeId) : (f.detach p c).tag j = f.tag j := by
  by_cases hj : j = p
  · subst hj
    rw [detach]
    split
    · rcases f.node_update j (fun n => { n with children := n.children.erase c }) j
        with h | ⟨-, -, h⟩ <;>
        simp [tag, h]
    · rfl
  · rw [tag, node_detach_of_ne hj, tag]

@[simp] theorem tag_foldl_detach (f : Forest) (p : NodeId) (cs : List NodeId) (j : NodeId) :
    (cs.foldl (fun f c => f.detach p c) f).tag j = f.tag j := by
  induction cs generalizing f with
  | nil => rfl
  | cons c cs ih => rw [List.foldl_cons, ih, tag_detach]

/-- A conversion changes the tag of its own statement only. -/
theorem tag_convertIf (hj : j < d.forest.size) (hne : j ≠ i) (p : Option NodeId) :
    (convertIf d p i).forest.tag j = d.forest.tag j := by
  rw [convertIf]
  split
  · split
    · simp (disch := first | omega | simp; omega) only [toIfConstruct, tag_appendChild,
        tag_foldl_detach, tag_setTail, tag_detach, tag_setText, tag_add_of_lt, tag_setTag_of_ne]
    · rfl
  · rfl

/-- The statement that a visit converts, as it is after all visits. -/
theorem Constructed.convertedAt {found : List Shape} (hss : f.HoldsAll (s :: rest))
    (hq : q.FoundIn (fun x => f.kind x.id) Shape.children s found)
    (hstep : f.Constructed f₁ s q level)
    (hframe : ∀ j < f₁.size, j ∉ (pieces s q ++ rest).flatMap Shape.preorder → g.node j = f₁.node j)
    (hothers : ∀ o ∈ q.others, g.kind o.id ≠ .continuation) :
    f.ConvertedAt g s.id q.condition.id q.action.id q.statement.id f.size (f.size + 1)
      (f.size + 2) := by
  have hf := hss.head
  obtain ⟨htop, hblock, hheader, hclosing⟩ := hstep.nodes_after hss hq hframe
  have hchildren : g.children s.id = q.others.map Shape.id ++ [f.size] :=
    congrArg Node.children htop
  have haction := hq.action
  rw [find?_eraseP] at haction
  refine ⟨?_, ?_, ?_, congrArg Node.tag htop, ?_, Nat.le_refl _, congrArg Node.tag hblock,
    congrArg Node.children hblock, congrArg Node.tag hheader, congrArg Node.children hheader,
    congrArg Node.tag hclosing, congrArg Node.children hclosing, ?_⟩
  · rw [childOfKind?_eq hf.carries, hq.condition]
    rfl
  · rw [childOfKind?_eq hf.carries, haction]
    rfl
  · have hmem : q.action ∈ s.children := hq.children_perm.mem_iff.mpr (by simp)
    rw [firstChild?, children_id (hf.carries.child hmem), List.head?_map, hq.statement]
    rfl
  · rw [hchildren, children_erase_parts hf hq, hq.others, List.filter_map]
    rfl
  · intro c hc
    rw [hchildren, List.mem_append, List.mem_map, List.mem_singleton] at hc
    rcases hc with ⟨o, ho, rfl⟩ | rfl
    · exact hothers o ho
    · have hkind : g.kind f.size = Kind.ofTag "if-block" := congrArg (Kind.ofTag ∘ Node.tag) hblock
      rw [hkind]
      decide
  · intro y hy
    rw [beq_iff_eq] at hy
    rw [hy]
    rfl

/-- Of what is visited after a conversion, only tails have changed. -/
theorem Constructed.outcome_pieces {found : List Shape} (hss : f.HoldsAll (s :: rest))
    (hq : q.FoundIn (fun x => f.kind x.id) Shape.children s found)
    (hstep : f.Constructed f₁ s q level)
    (hbelow : ∀ j ∈ (pieces s q ++ rest).flatMap Shape.preorder, f₁.Outcome g j) :
    ∀ j ∈ (pieces s q ++ rest).flatMap Shape.preorder, f.Outcome g j := by
  intro j hj
  have hnodup := (perm_flatMap_pieces hss hq).nodup_iff.mp hss.nodup
  rw [List.nodup_cons, List.nodup_cons] at hnodup
  obtain ⟨r, hr, hjr⟩ := List.mem_flatMap.mp hj
  have hrheld : f.Holds r :=
    ⟨hss.carries_pieces hq r hr,
      hnodup.2.2.sublist (List.sublist_flatten_of_mem (List.mem_map_of_mem hr))⟩
  obtain ⟨t, rfl, ht, hsub⟩ := hrheld.exists_below hjr
  have hsame : f.SameBelow f₁ t := fun k hk =>
    hstep.node_pieces hss hq (List.mem_flatMap.mpr ⟨r, hr, hsub hk⟩)
  exact hsame.outcome ht (hstep.size_eq ▸ Nat.le_add_right _ _) (hbelow _ hj)

/-- The action of a statement that is converted is in the tree no more, and keeps its tag. -/
theorem Constructed.outcome_action {found : List Shape} (hss : d.forest.HoldsAll (s :: rest))
    (hq : q.FoundIn (fun x => d.forest.kind x.id) Shape.children s found)
    (hmade : d.forest.Constructed f₁ s q level) (hstep : convertIf d none s.id = ⟨f₁, d.edits + 1⟩)
    (hframe : ∀ j < f₁.size, j ∉ (pieces s q ++ rest).flatMap Shape.preorder →
      g.node j = f₁.node j) :
    d.forest.Outcome g q.action.id := by
  have hheld := hss.head
  have hnodup := (perm_flatMap_pieces hss hq).nodup_iff.mp hss.nodup
  rw [List.nodup_cons, List.nodup_cons, List.mem_cons, not_or] at hnodup
  obtain ⟨⟨hia, -⟩, ha, -⟩ := hnodup
  have halt := hheld.carries.mem_lt q.action.id ((perm_preorder hheld hq).mem_iff.mpr (by simp))
  have hkind : d.forest.kind q.action.id = .actionStmt := hq.action_kind
  have htag := tag_convertIf (d := d) (i := s.id) halt (Ne.symm hia) none
  rw [hstep] at htag
  refine .of_kind_ne (by simp [hkind]) ?_
  have hsize : d.forest.size ≤ f₁.size := hmade.size_eq ▸ Nat.le_add_right _ _
  exact (congrArg Node.tag (hframe _ (Nat.lt_of_lt_of_le halt hsize) ha)).trans htag

/-- The statement that a visit converts. The children that it keeps are pieces, so none becomes a
marker. -/
theorem Constructed.outcome_top {found : List Shape} (hss : f.HoldsAll (s :: rest))
    (hq : q.FoundIn (fun x => f.kind x.id) Shape.children s found)
    (hstep : f.Constructed f₁ s q level)
    (hframe : ∀ j < f₁.size, j ∉ (pieces s q ++ rest).flatMap Shape.preorder → g.node j = f₁.node j)
    (hpieces : ∀ j ∈ (pieces s q ++ rest).flatMap Shape.preorder, f.Outcome g j)
    (hconv : f.Convertible s.id) : f.Outcome g s.id := by
  refine ⟨fun _ => ⟨_, _, _, _, _, _, hstep.convertedAt hss hq hframe fun o ho => ?_⟩,
    fun h => absurd hconv h⟩
  refine (hpieces o.id ?_).kind_ne_continuation ?_
  · exact List.mem_flatMap.mpr
      ⟨o, List.mem_append_left _ (mem_pieces_others hss.head hq ho), o.id_mem_preorder⟩
  · rw [hq.others] at ho
    simpa using (List.mem_filter.mp ho).2

/-- After the visits, each node of the shapes has become what it should. -/
theorem outcome_visits {P : Nat → Bool} (d : Draft) (ss : List Shape)
    (hss : Pending P d.forest ss) :
    ∀ j ∈ ss.flatMap Shape.preorder,
      d.forest.Outcome
        (((ss.flatMap Shape.preorder).filter P).foldl
          (fun d i => convertIf d none i) d).forest j := by
  refine (visits_induct (P := P)
    (motive := fun d ss d' => (∃ F, Converted d.forest d'.forest ss F) ∧
      ∀ j ∈ ss.flatMap Shape.preorder, d.forest.Outcome d'.forest j)
    ?nil ?keep ?convert d ss hss).2
  case nil =>
    intro d
    refine ⟨⟨id, Nat.le_refl _, fun _ _ _ => rfl, ?_, ?_, ?_, ?_, ?_⟩, ?_⟩ <;> simp
  case keep =>
    rintro d d' s rest hss hconv ⟨⟨F, hF⟩, hbelow⟩
    have hn := hss.nodup
    rw [flatMap_preorder_cons, List.nodup_cons] at hn
    have htop : d.forest.Outcome d'.forest s.id := by
      refine ⟨fun h => ?_, fun _ => congrArg Node.tag (hF.frame s.id hss.head.carries.id_lt hn.1)⟩
      rw [hss.head.convertible_iff, hconv] at h
      cases h
    refine ⟨?_, fun j hj => ?_⟩
    · obtain ⟨i, cs⟩ := s
      exact ⟨_, hF.keep hss.toHoldsAll hconv⟩
    · rw [flatMap_preorder_cons, List.mem_cons] at hj
      rcases hj with rfl | hj
      · exact htop
      · exact hbelow j hj
  case convert =>
    rintro d d' s rest q found level f₁ hss hfound hconv hmade hstep ⟨⟨F, hF⟩, hbelow⟩
    have hall := hss.toHoldsAll
    have hpieces := hmade.outcome_pieces hall hfound hbelow
    have hconvertible : d.forest.Convertible s.id := by
      rw [hss.head.convertible_iff, hconv]
      rfl
    refine ⟨⟨_, .convert hall hfound hmade hF hconv⟩, fun j hj => ?_⟩
    rw [(perm_flatMap_pieces hall hfound).mem_iff, List.mem_cons, List.mem_cons] at hj
    rcases hj with rfl | rfl | hj
    · exact hmade.outcome_top hall hfound hF.frame hpieces hconvertible
    · exact hmade.outcome_action hall hfound hstep hF.frame
    · exact hpieces j hj

end Forest

/-- Exactly the convertible statements are converted, each into a construct of the parts that it
had; the other nodes keep their tags; and all is converted at once. -/
theorem convertIfStatements_exact (e : Element) :
    let f := Forest.ofElement e
    let d := convertIfStatements f
    (∀ i ∈ f.preorder, (f.Convertible i → ∃ condition action statement block header closing,
        f.ConvertedAt d.forest i condition action statement block header closing) ∧
      (¬f.Convertible i → d.forest.tag i = f.tag i)) ∧
    d.edits = f.preorder.countP (f.Convertible ·) ∧
    convertIfStatements d.forest = { forest := d.forest } := by
  intro f d
  have hheld : f.Holds (e.shapeFrom 0) := Forest.holds_ofElement e
  have hroot : (e.shapeFrom 0).id = Forest.root := e.id_shapeFrom 0
  have hpreorder : f.preorder = (e.shapeFrom 0).preorder := hheld.preorder_eq hroot
  have houtcome := Forest.outcome_visits { forest := f } _ (Forest.pending_ofElement e)
  obtain ⟨F, d', hrun, hF, -⟩ :=
    Forest.exists_converted { forest := f } _ (Forest.pending_ofElement e)
  rw [List.flatMap_singleton, ← hpreorder] at houtcome hrun
  obtain rfl : d = d' := hrun
  refine ⟨fun i hi => ⟨(houtcome i hi).converted, (houtcome i hi).kept⟩, ?_, ?_⟩
  · rw [(Forest.convertIfStatements_ofElement e).2, hpreorder, hheld.countP_convertible,
      Forest.elementOf_ofElement]
  · -- what the tree denotes now has nothing left to convert
    have hholds := hF.holds _ List.mem_cons_self
    have hid := (hF.id_eq _ List.mem_cons_self).trans hroot
    have hnone := hholds.countP_convertible
    rw [(hF.converts _ List.mem_cons_self).conversions_eq_zero, ← hholds.preorder_eq hid,
      List.countP_eq_zero] at hnone
    exact Forest.convertIfStatements_eq_self fun i hi => by simpa using hnone i hi

/-- A one-line IF whose statement is a one-line IF too. -/
def nestedIf : Element where
  tag := "file"
  children :=
    [{ tag := "if-stmt"
       text := "IF ("
       children :=
        [{ tag := "condition-E", text := "A", tail := ") " },
         { tag := "action-stmt"
           children :=
            [{ tag := "if-stmt"
               text := "IF ("
               children :=
                [{ tag := "condition-E", text := "B", tail := ") " },
                 { tag := "action-stmt",
                   children := [{ tag := "print-stmt", text := "PRINT*,X" }] }] }] }] }]

/-- Both become constructs, and the block of the outer one holds the inner one. -/
theorem convertIfStatements_exact_nestedIf :
    let f := Forest.ofElement nestedIf
    let d := convertIfStatements f
    f.Convertible 1 ∧ f.Convertible 4 ∧ d.edits = 2 ∧
      (∃ block header closing, f.ConvertedAt d.forest 1 2 3 4 block header closing) ∧
      ∃ block header closing, f.ConvertedAt d.forest 4 5 6 7 block header closing := by
  intro f d
  obtain ⟨hconverted, hedits, -⟩ := convertIfStatements_exact nestedIf
  have houter : f.Convertible 1 := by decide +kernel
  have hinner : f.Convertible 4 := by decide +kernel
  refine ⟨houter, hinner, hedits.trans (by decide +kernel), ?_, ?_⟩
  · obtain ⟨_, _, _, block, header, closing, h⟩ := (hconverted 1 (by decide +kernel)).1 houter
    obtain ⟨rfl, rfl, rfl⟩ :=
      h.parts_eq (c := 2) (a := 3) (q := 4) (by decide +kernel) (by decide +kernel)
      (by decide +kernel)
    exact ⟨block, header, closing, h⟩
  · obtain ⟨_, _, _, block, header, closing, h⟩ := (hconverted 4 (by decide +kernel)).1 hinner
    obtain ⟨rfl, rfl, rfl⟩ :=
      h.parts_eq (c := 5) (a := 6) (q := 7) (by decide +kernel) (by decide +kernel)
      (by decide +kernel)
    exact ⟨block, header, closing, h⟩

end FortranLayout
