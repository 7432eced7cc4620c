import FortranLayout.Proofs.Forest.Passes
import FortranLayout.Proofs.Kinds

/-!
# Kinds that are kept in the store

A store may classify a tag once, when a node is given it, and answer from what it wrote down then
(`ClassifiedForest`). Only an allocation and a new tag write a kind, so all depends on there being
no other way to a tag: every operation changes the kinds that the tags say just as it changes those
that are kept (`Forest.tagKinds_perform`), and passes edit the store through operations only
(`Pass.leads_run`). Hence in every store that operations and passes lead to, each node is of the
kind of its present tag (`ClassifiedForest.kind?_of_reachable`), and it makes no difference to a
pass which of the two it asks.
-/

namespace FortranLayout

namespace Forest

/-! ## What the tags say -/

/-- The kinds that the tags of the nodes say, in order of allocation. -/
def tagKinds (f : Forest) : Array Kind := f.nodes.map Node.kind

variable {f : Forest}

theorem getElem?_tagKinds {i : Nat} (hi : i < f.size) : f.tagKinds[i]? = some (f.kind i) := by
  have hi' : i < f.nodes.size := hi
  simp [tagKinds, kind, node, Array.getD_eq_getD_getElem?, hi']

theorem tagKinds_add (f : Forest) (n : Node) : (f.add n).tagKinds = f.tagKinds.push n.kind := by
  simp [tagKinds, add]

/-- What leaves the tag of a node alone leaves all kinds alone. -/
theorem tagKinds_update (f : Forest) (i : NodeId) {u : Node → Node} (hu : ∀ n, (u n).tag = n.tag) :
    (f.update i u).tagKinds = f.tagKinds := by
  refine Array.ext_getElem? fun j => ?_
  simp only [tagKinds, update, Array.getElem?_map, Array.getElem?_modify]
  split
  · rw [Option.map_map]
    congr 1
    funext n
    exact congrArg Kind.ofTag (hu n)
  · rfl

theorem tagKinds_dropIndex (f : Forest) : f.dropIndex.tagKinds = f.tagKinds := rfl

theorem tagKinds_setText (f : Forest) (i : NodeId) (t : String) :
    (f.setText i t).tagKinds = f.tagKinds :=
  tagKinds_update f i fun _ => rfl

theorem tagKinds_setTail (f : Forest) (i : NodeId) (t : String) :
    (f.setTail i t).tagKinds = f.tagKinds :=
  tagKinds_update f i fun _ => rfl

theorem tagKinds_setTag (f : Forest) (i : NodeId) (tag : String) :
    (f.setTag i tag).tagKinds = f.tagKinds.setIfInBounds i (Kind.ofTag tag) := by
  refine Array.ext_getElem? fun j => ?_
  simp only [tagKinds, setTag, dropIndex, update, Array.getElem?_map, Array.getElem?_modify,
    Array.getElem?_setIfInBounds]
  split
  · subst_vars
    by_cases hj : j < f.nodes.size <;> simp [hj, Node.kind]
  · rfl

theorem tagKinds_insertChild (f : Forest) (p : NodeId) (k : Nat) (c : NodeId) :
    (f.insertChild p k c).tagKinds = f.tagKinds :=
  (tagKinds_dropIndex _).trans (tagKinds_update f p fun _ => rfl)

theorem tagKinds_appendChild (f : Forest) (p c : NodeId) :
    (f.appendChild p c).tagKinds = f.tagKinds :=
  (tagKinds_dropIndex _).trans (tagKinds_update f p fun _ => rfl)

theorem tagKinds_detach (f : Forest) (p c : NodeId) : (f.detach p c).tagKinds = f.tagKinds := by
  rw [detach]
  split
  · exact (tagKinds_dropIndex _).trans (tagKinds_update f p fun _ => rfl)
  · rfl

theorem tagKinds_appendBefore (f : Forest) (p : NodeId) (k : Nat) (t : String) :
    (f.appendBefore p k t).tagKinds = f.tagKinds := by
  unfold appendBefore
  split
  · exact tagKinds_setText f _ _
  · split
    · exact tagKinds_setTail f _ _
    · rfl

theorem tagKinds_removeChild (f : Forest) (p c : NodeId) :
    (f.removeChild p c).tagKinds = f.tagKinds := by
  rw [removeChild]
  split
  · rw [tagKinds_appendBefore, tagKinds_setTail, tagKinds_detach]
  · rfl

theorem tagKinds_indexed (f : Forest) : f.indexed.tagKinds = f.tagKinds := by
  rw [indexed]
  split <;> rfl

/-! ## What is kept -/

/-- The kinds that are kept, after an operation: those of new tags are written down. -/
def Operation.classify (kinds : Array Kind) : Operation → Array Kind
  | .newNode tag | .newLeaf tag _ => kinds.push (Kind.ofTag tag)
  | .setTag i tag => kinds.setIfInBounds i (Kind.ofTag tag)
  | _ => kinds

/-- An operation changes what the tags say just as it changes what is kept. -/
theorem tagKinds_perform (f : Forest) (op : Operation) :
    (f.perform op).tagKinds = op.classify f.tagKinds := by
  cases op with
  | newNode tag => exact tagKinds_add f _
  | newLeaf tag text => exact tagKinds_add f _
  | insertChild p k c => exact tagKinds_insertChild f p k c
  | appendChild p c => exact tagKinds_appendChild f p c
  | detach p c => exact tagKinds_detach f p c
  | removeChild p c => exact tagKinds_removeChild f p c
  | appendBefore p k trivia => exact tagKinds_appendBefore f p k trivia
  | setTag i tag => exact tagKinds_setTag f i tag
  | setText i text => exact tagKinds_setText f i text
  | setTail i tail => exact tagKinds_setTail f i tail
  | useIndex on => rfl
  | askParent i => exact tagKinds_indexed f

end Forest

/-- A store that keeps the kinds its nodes were given with their tags. -/
@[ext]
structure ClassifiedForest where
  forest : Forest
  /-- The kinds, in order of allocation. -/
  kinds : Array Kind
deriving DecidableEq, Repr

namespace ClassifiedForest

open Forest (Operation)

/-- A store with a root only. -/
def new (tag : String) : ClassifiedForest := ⟨Forest.new tag, #[Kind.ofTag tag]⟩

/-- The kind that is kept for a node. -/
def kind? (s : ClassifiedForest) (i : NodeId) : Option Kind := s.kinds[i]?

/-- The store after an operation. -/
def perform (s : ClassifiedForest) (op : Operation) : ClassifiedForest :=
  ⟨s.forest.perform op, op.classify s.kinds⟩

/-- One operation on allocated nodes makes `t` of `s`. -/
def Performs (s t : ClassifiedForest) : Prop :=
  ∃ op : Operation, (∀ i ∈ op.named, i < s.forest.size) ∧ s.perform op = t

/-- Operations on allocated nodes lead from `s` to `t`. -/
abbrev Leads : ClassifiedForest → ClassifiedForest → Prop := Relation.ReflTransGen Performs

/-- A pass makes `t` of `s`: it performs operations that lead to what it leaves of the store. -/
structure Passes (s : ClassifiedForest) (p : Pass) (t : ClassifiedForest) : Prop where
  leads : s.Leads t
  forest_eq : t.forest = p.run s.forest

/-- The stores that operations on allocated nodes and passes lead to. -/
inductive Reachable : ClassifiedForest → Prop where
  | new (tag : String) : Reachable (new tag)
  | operation {s : ClassifiedForest} (op : Operation) (h : Reachable s)
    (hop : ∀ i ∈ op.named, i < s.forest.size) : Reachable (s.perform op)
  | pass {s t : ClassifiedForest} (p : Pass) (h : Reachable s) (hp : s.Passes p t) : Reachable t

/-- The kinds that are kept are those that the tags say. -/
def Agrees (s : ClassifiedForest) : Prop := s.kinds = s.forest.tagKinds

variable {s t : ClassifiedForest}

theorem agrees_new (tag : String) : (new tag).Agrees := by
  simp [Agrees, new, Forest.new, Forest.tagKinds, Node.kind]

theorem Agrees.perform (h : s.Agrees) (op : Operation) : (s.perform op).Agrees := by
  rw [Agrees, ClassifiedForest.perform, Forest.tagKinds_perform, h]

theorem Agrees.of_leads (h : s.Agrees) (hl : s.Leads t) : t.Agrees := by
  induction hl with
  | refl => exact h
  | tail _ hstep ih =>
    obtain ⟨op, _, rfl⟩ := hstep
    exact ih.perform op

theorem Reachable.agrees (h : s.Reachable) : s.Agrees := by
  induction h with
  | new tag => exact agrees_new tag
  | operation op _ _ ih => exact ih.perform op
  | pass p _ hp ih => exact ih.of_leads hp.leads

theorem Reachable.forest (h : s.Reachable) : s.forest.Reachable := by
  induction h with
  | new tag => exact .new tag
  | operation op _ hop ih => exact ih.step op hop
  | pass p _ hp ih => exact hp.forest_eq ▸ ih.pass p

/-- Where operations lead in the store without kinds, the same operations lead in the store that
keeps them. -/
theorem exists_leads {g : Forest} (h : s.forest.Leads g) : ∃ t, s.Leads t ∧ t.forest = g := by
  induction h with
  | refl => exact ⟨s, .refl, rfl⟩
  | tail _ hstep ih =>
    obtain ⟨t, hst, rfl⟩ := ih
    obtain ⟨op, hop, rfl⟩ := hstep
    exact ⟨t.perform op, hst.tail ⟨op, hop, rfl⟩, rfl⟩

/-- Every store that operations lead to is also one that keeps its kinds. -/
theorem exists_reachable {f : Forest} (h : f.Reachable) :
    ∃ s : ClassifiedForest, s.Reachable ∧ s.forest = f := by
  induction h with
  | new tag => exact ⟨new tag, .new tag, rfl⟩
  | step op _ hop ih =>
    obtain ⟨s, hs, rfl⟩ := ih
    exact ⟨s.perform op, hs.operation op hop, rfl⟩

/-- A pass can be carried out on every reachable store, and it determines the kinds that are kept.
-/
theorem Reachable.existsUnique_passes (h : s.Reachable) (p : Pass) : ∃! t, s.Passes p t := by
  obtain ⟨t, hst, hforest⟩ := exists_leads (p.leads_run h.forest.consistent)
  refine ⟨t, ⟨hst, hforest⟩, fun t' ht' => ?_⟩
  have hsame : t'.forest = t.forest := ht'.forest_eq.trans hforest.symm
  refine ClassifiedForest.ext hsame ?_
  rw [h.agrees.of_leads ht'.leads, h.agrees.of_leads hst, hsame]

theorem Reachable.kind?_eq (h : s.Reachable) {i : Nat} (hi : i < s.forest.size) :
    s.kind? i = some (Kind.ofTag (s.forest.tag i)) := by
  rw [kind?, h.agrees]
  exact Forest.getElem?_tagKinds hi

/-- The classification of tags keeps to their endings. In every store that operations and passes
lead to, the kind that is kept for a node is that of its present tag; each pass can be carried out
there, with one outcome. -/
theorem kind?_of_reachable :
    (∀ tag : String,
        ((Kind.ofTag tag).isStatement = true ↔ ∃ stem, tag = stem ++ "-stmt") ∧
        ((Kind.ofTag tag).isContainer = true ↔
          (∃ stem, tag = stem ++ "-construct") ∨ tag ∈ Kind.containerTags)) ∧
      ∀ s : ClassifiedForest, s.Reachable →
        (∀ i < s.forest.size, s.kind? i = some (Kind.ofTag (s.forest.tag i))) ∧
          ∀ p : Pass, ∃! t, s.Passes p t :=
  ⟨fun tag => ⟨Kind.isStatement_ofTag tag, Kind.isContainer_ofTag tag⟩,
    fun _ h => ⟨fun _ hi => h.kind?_eq hi, h.existsUnique_passes⟩⟩

/-- A statement that a pass turns into a construct, with nodes that the pass allocates. -/
def guardedPrint : Element where
  tag := "file"
  children :=
    [{ tag := "if-stmt"
       text := "IF ("
       children :=
        [{ tag := "condition-E", text := "A", tail := ") " },
         { tag := "action-stmt", children := [{ tag := "print-stmt", text := "PRINT*,X" }] }] }]

/-- The kinds that are kept before and after the conversion of the statement. -/
theorem kind?_of_reachable_guardedPrint :
    ∃ s t : ClassifiedForest, s.Reachable ∧ s.forest = Forest.ofElement guardedPrint ∧
      s.Passes .convertIfStatements t ∧
      (List.range 5).map s.kind? =
        [some .file, some .ifStmt, some .condition, some .actionStmt, some .printStmt] ∧
      (List.range 8).map t.kind? =
        [some .file, some (.construct .ifThen), some .condition, some .actionStmt, some .printStmt,
         some (.block .ifThen), some .ifThenStmt, some .endIfStmt] := by
  obtain ⟨s, hs, hforest⟩ := exists_reachable (Forest.reachable_ofElement guardedPrint)
  obtain ⟨hkinds, hpass⟩ := kind?_of_reachable.2 s hs
  obtain ⟨t, ht, -⟩ := hpass .convertIfStatements
  have hkinds' := (kind?_of_reachable.2 t (hs.pass _ ht)).1
  have hconverted : t.forest = (convertIfStatements (Forest.ofElement guardedPrint)).forest :=
    ht.forest_eq.trans (by rw [hforest]; rfl)
  have hsize : (Forest.ofElement guardedPrint).size = 5 := by decide +kernel
  have hsize' : (convertIfStatements (Forest.ofElement guardedPrint)).forest.size = 8 := by
    decide +kernel
  rw [hforest, hsize] at hkinds
  rw [hconverted, hsize'] at hkinds'
  refine ⟨s, t, hs, hforest, ht, ?_, ?_⟩
  · rw [List.map_congr_left fun i hi => hkinds i (List.mem_range.mp hi)]
    decide +kernel
  · rw [List.map_congr_left fun i hi => hkinds' i (List.mem_range.mp hi)]
    decide +kernel

end ClassifiedForest

end FortranLayout
