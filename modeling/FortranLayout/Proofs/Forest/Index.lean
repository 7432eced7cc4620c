import FortranLayout.Forest.OfEvents
import FortranLayout.Proofs.Forest.Acyclic
import FortranLayout.Proofs.Forest.Retailed

/-!
# The index of parents is never out of date

The index is computed when a parent is asked for, and kept until an edit drops it. Allocations and
edits of texts keep it, so that a store may have more nodes than its index has entries.
`Forest.Reachable` are the stores that any sequence of operations can lead to, with questions for
parents anywhere in between. In all of them:

* the index answers as a scan of the present tree would, and as the walk from the root does where no
  node has two parents (`Forest.parent?_of_reachable`);
* what carries this is the invariant `Forest.Consistent`, one lemma for each operation. It asks for
  nothing while the tree has a cycle: only an edit that drops the index can end a cycle.

The stores of elements and of events are reachable (`Forest.reachable_ofElement`,
`Forest.reachable_ofEvents`).
-/

namespace FortranLayout

namespace Forest

variable {f g : Forest} {i : Nat}

/-! ## Operations -/

/-- What can be done to a store. -/
inductive Operation where
  | newNode (tag : String)
  | newLeaf (tag text : String)
  | insertChild (parent : NodeId) (index : Nat) (child : NodeId)
  | appendChild (parent child : NodeId)
  | detach (parent child : NodeId)
  | removeChild (parent child : NodeId)
  | appendBefore (parent : NodeId) (index : Nat) (trivia : String)
  | setTag (i : NodeId) (tag : String)
  | setText (i : NodeId) (text : String)
  | setTail (i : NodeId) (tail : String)
  | useIndex (on : Bool)
  /-- A question for the parent of a node. It leaves the index behind. -/
  | askParent (i : NodeId)
deriving DecidableEq, Repr

/-- The store after an operation. -/
def perform (f : Forest) : Operation → Forest
  | .newNode tag => f.add { tag }
  | .newLeaf tag text => f.add { tag, text }
  | .insertChild parent index child => f.insertChild parent index child
  | .appendChild parent child => f.appendChild parent child
  | .detach parent child => f.detach parent child
  | .removeChild parent child => f.removeChild parent child
  | .appendBefore parent index trivia => f.appendBefore parent index trivia
  | .setTag i tag => f.setTag i tag
  | .setText i text => f.setText i text
  | .setTail i tail => f.setTail i tail
  | .useIndex on => f.useIndex on
  | .askParent _ => f.indexed

/-- The nodes that an operation names. -/
def Operation.named : Operation → List NodeId
  | .newNode _ | .newLeaf _ _ | .useIndex _ => []
  | .insertChild parent _ child | .appendChild parent child | .detach parent child
  | .removeChild parent child => [parent, child]
  | .appendBefore i _ _ | .setTag i _ | .setText i _ | .setTail i _ | .askParent i => [i]

/-- The stores that operations on allocated nodes lead to. -/
inductive Reachable : Forest → Prop where
  | new (tag : String) : Reachable (new tag)
  | step {f : Forest} (op : Operation) (h : Reachable f) (hop : ∀ i ∈ op.named, i < f.size) :
    Reachable (f.perform op)

/-! ## The invariant -/

/-- All children are in the store. An index that has been computed answers as a scan of the tree,
unless the tree has a cycle. -/
structure Consistent (f : Forest) : Prop where
  closed : f.Closed
  index_eq : ∀ a ∈ f.index, f.Acyclic → ∀ i : Nat, a[i]?.join = f.scanParents[i]?.join

theorem Closed.of_subset (hc : f.Closed) (hsize : f.size ≤ g.size)
    (h : ∀ {p c : NodeId}, c ∈ g.children p → c ∈ f.children p ∨ c < f.size) : g.Closed := by
  refine ⟨Nat.lt_of_lt_of_le hc.root_lt hsize, fun hm => ?_⟩
  rcases h hm with hm | hlt
  · exact Nat.lt_of_lt_of_le (hc.child_lt hm) hsize
  · exact Nat.lt_of_lt_of_le hlt hsize

theorem Closed.consistent (hc : f.Closed) (hindex : f.index = none) : f.Consistent := by
  refine ⟨hc, fun a ha => ?_⟩
  rw [hindex] at ha
  cases ha

/-- Edits of texts leave the index as it is. -/
theorem Consistent.congr (h : f.Consistent) (hsize : g.size = f.size)
    (hchildren : ∀ p, g.children p = f.children p) (hindex : g.index = f.index) : g.Consistent := by
  refine ⟨h.closed.of_subset (Nat.le_of_eq hsize.symm) fun hm => Or.inl (hchildren _ ▸ hm), ?_⟩
  intro a ha hacyclic
  rw [scanParents_congr hsize hchildren]
  exact h.index_eq a (hindex ▸ ha) ((acyclic_congr hchildren).mp hacyclic)

/-- No edge leads out of a closed store. -/
theorem Closed.find?_edges (hc : f.Closed) : f.edges.reverse.find? (·.2 == f.size) = none :=
  find?_edges_eq_none fun _ hmem => Nat.lt_irrefl _ (hc.child_lt hmem)

/-- A new node has no parent, and no entry in the index. -/
theorem Consistent.add (h : f.Consistent) {n : Node} (hn : n.children = []) :
    (f.add n).Consistent := by
  have hchildren : ∀ p, (f.add n).children p = f.children p := children_add f hn
  have hsize : f.size ≤ (f.add n).size := by simp
  refine ⟨h.closed.of_subset hsize fun hm => Or.inl (hchildren _ ▸ hm), fun a ha hacyclic i => ?_⟩
  have hacyclic' : f.Acyclic := (acyclic_congr hchildren).mp hacyclic
  rw [h.index_eq a ha hacyclic' i]
  -- The tree is the same, so the same edges are scanned; none of them leads to the new node.
  have hedges : (f.add n).edges = f.edges := by
    have hpreorder : (f.add n).preorder = f.preorder :=
      congrArg Shape.preorder (hacyclic'.shape_congr h.closed hsize hchildren)
    rw [edges, edges, hpreorder]
    exact List.flatMap_congr fun p _ => by rw [hchildren p]
  rcases Nat.lt_trichotomy i f.size with hi | rfl | hi
  · have hi' : i < (f.add n).size := Nat.lt_of_lt_of_le hi hsize
    rw [getElem?_scanParents hi, getElem?_scanParents hi', hedges]
  · have hi' : f.size < (f.add n).size := by simp
    rw [getElem?_scanParents_of_le (Nat.le_refl _), getElem?_scanParents hi', hedges,
      h.closed.find?_edges]
    rfl
  · have hi' : (f.add n).size ≤ i := by rw [size_add]; omega
    rw [getElem?_scanParents_of_le (Nat.le_of_lt hi), getElem?_scanParents_of_le hi']

theorem Consistent.setText (h : f.Consistent) (i : NodeId) (t : String) :
    (f.setText i t).Consistent :=
  h.congr (size_setText f i t) (fun _ => children_setText) rfl

theorem Consistent.setTail (h : f.Consistent) (i : NodeId) (t : String) :
    (f.setTail i t).Consistent :=
  h.congr (size_setTail f i t) (fun _ => children_setTail) rfl

theorem Consistent.appendBefore (h : f.Consistent) (p : NodeId) (k : Nat) (t : String) :
    (f.appendBefore p k t).Consistent := by
  unfold Forest.appendBefore
  split
  · exact h.setText _ _
  · split
    · exact h.setTail _ _
    · exact h

/-- An update that enters allocated children only, and drops the index. -/
theorem Consistent.update_dropIndex (h : f.Consistent) (i : NodeId) {u : Node → Node}
    (hu : ∀ n, ∀ c ∈ (u n).children, c ∈ n.children ∨ c < f.size) :
    (f.update i u).dropIndex.Consistent := by
  refine Closed.consistent (h.closed.of_subset (by simp) fun {p c} hm => ?_) rfl
  rcases f.node_update i u p with hn | ⟨_, _, hn⟩
  · rw [children, node_dropIndex, hn] at hm
    exact Or.inl hm
  · rw [children, node_dropIndex, hn] at hm
    exact hu _ c hm

theorem Consistent.detach (h : f.Consistent) (p c : NodeId) : (f.detach p c).Consistent := by
  rw [Forest.detach]
  split
  · exact h.update_dropIndex p fun n b hb => Or.inl (List.mem_of_mem_erase hb)
  · exact h

theorem Consistent.removeChild (h : f.Consistent) (p c : NodeId) :
    (f.removeChild p c).Consistent := by
  rw [Forest.removeChild]
  split
  · exact ((h.detach p c).setTail c "").appendBefore _ _ _
  · exact h

theorem Consistent.insertChild (h : f.Consistent) (p : NodeId) (k : Nat) {c : NodeId}
    (hc : c < f.size) :
    (f.insertChild p k c).Consistent := by
  refine h.update_dropIndex p fun n b hb => ?_
  rw [List.mem_append, List.mem_cons] at hb
  rcases hb with hb | rfl | hb
  · exact Or.inl (List.mem_of_mem_take hb)
  · exact Or.inr hc
  · exact Or.inl (List.mem_of_mem_drop hb)

theorem Consistent.appendChild (h : f.Consistent) (p : NodeId) {c : NodeId} (hc : c < f.size) :
    (f.appendChild p c).Consistent := by
  refine h.update_dropIndex p fun n b hb => ?_
  rw [List.mem_append, List.mem_singleton] at hb
  rcases hb with hb | rfl
  · exact Or.inl hb
  · exact Or.inr hc

theorem Consistent.setTag (h : f.Consistent) (i : NodeId) (t : String) :
    (f.setTag i t).Consistent :=
  h.update_dropIndex i fun _ _ hb => Or.inl hb

theorem Consistent.useIndex (h : f.Consistent) (on : Bool) : (f.useIndex on).Consistent :=
  Closed.consistent (h.closed.of_subset (Nat.le_refl _) Or.inl) rfl

/-- The index that a question leaves behind is the one that was there or a scan of the tree. -/
theorem Consistent.indexed (h : f.Consistent) : f.indexed.Consistent := by
  have hchildren : ∀ p, f.indexed.children p = f.children p := fun p =>
    congrArg Node.children (node_indexed f p)
  have hscan : f.indexed.scanParents = f.scanParents := scanParents_congr (size_indexed f) hchildren
  cases hi : f.index with
  | some a => rw [indexed_of_index hi]; exact h
  | none =>
    refine ⟨h.closed.of_subset (Nat.le_of_eq (size_indexed f).symm) fun hm =>
      Or.inl (hchildren _ ▸ hm), fun a ha _ i => ?_⟩
    rw [Forest.indexed] at ha
    split at ha
    · rw [hi, Option.getD_none] at ha
      rw [hscan, Option.some.inj ha]
    · rw [hi] at ha
      cases ha

/-! ## Runs -/

theorem Consistent.perform (h : f.Consistent) (op : Operation) (hop : ∀ i ∈ op.named, i < f.size) :
    (f.perform op).Consistent := by
  cases op with
  | newNode tag => exact h.add rfl
  | newLeaf tag text => exact h.add rfl
  | insertChild parent index child =>
    exact h.insertChild parent index (hop child (by simp [Operation.named]))
  | appendChild parent child => exact h.appendChild parent (hop child (by simp [Operation.named]))
  | detach parent child => exact h.detach parent child
  | removeChild parent child => exact h.removeChild parent child
  | appendBefore parent index trivia => exact h.appendBefore parent index trivia
  | setTag i tag => exact h.setTag i tag
  | setText i text => exact h.setText i text
  | setTail i tail => exact h.setTail i tail
  | useIndex on => exact h.useIndex on
  | askParent i => exact h.indexed

theorem consistent_new (tag : String) : (new tag).Consistent := by
  refine Closed.consistent ⟨Nat.zero_lt_one, fun {p c} hm => ?_⟩ rfl
  obtain rfl : p = 0 := Nat.lt_one_iff.mp (lt_size_of_mem_children hm)
  cases hm

theorem Reachable.consistent (h : f.Reachable) : f.Consistent := by
  induction h with
  | new tag => exact consistent_new tag
  | step op _ hop ih => exact ih.perform op hop

/-! ## Stores that are built -/

theorem Reachable.addNode (h : f.Reachable) (tag text tail : String) :
    (f.add { tag, text, tail }).Reachable := by
  have hstep := (h.step (.newLeaf tag text) (by simp [Operation.named])).step (.setTail f.size tail)
    (by simp [Operation.named, perform])
  have heq : (f.add { tag, text }).setTail f.size tail = f.add { tag, text, tail } :=
    update_add_size f _ _
  rw [← heq]
  exact hstep

theorem Reachable.addElements {es : List Element}
    (ih : ∀ e ∈ es, ∀ {f : Forest} {p : NodeId}, f.Reachable → p < f.size →
      (f.addElement p e).Reachable)
    {p : NodeId} (h : f.Reachable) (hp : p < f.size) : (f.addElements p es).Reachable := by
  induction es generalizing f with
  | nil => rwa [Forest.addElements]
  | cons e es ihes =>
    rw [Forest.addElements]
    refine ihes (fun d hd => ih d (List.mem_cons_of_mem _ hd)) (ih e List.mem_cons_self h hp) ?_
    rw [(grows_addElement e f p hp).size_eq]
    exact Nat.lt_of_lt_of_le hp (Nat.le_add_right _ _)

theorem Reachable.addElement (e : Element) {p : NodeId} (h : f.Reachable) (hp : p < f.size) :
    (f.addElement p e).Reachable := by
  induction e using Element.induct generalizing f p with
  | h tag text tail cs ih =>
    rw [Forest.addElement]
    have hentered := (h.addNode tag text tail).step (.appendChild p f.size)
      (by simpa [Operation.named] using Nat.lt_succ_of_lt hp)
    exact hentered.addElements (fun e he _ _ => ih e he) (by simp [perform])

theorem reachable_ofElement (e : Element) : (ofElement e).Reachable := by
  have hnew : ∀ i ∈ [root], i < (new e.tag).size := by simp [root, size, Forest.new]
  have hroot :
      ({ nodes := #[{ tag := e.tag, text := e.text, tail := e.tail }] } : Forest).Reachable :=
    ((Reachable.new e.tag).step (.setText root e.text) hnew).step (.setTail root e.tail) hnew
  exact hroot.addElements (fun e _ _ _ => Reachable.addElement e) Nat.zero_lt_one

end Forest

/-- A tree under construction in a reachable store that has the open nodes. -/
structure Builder.Reached (b : Builder) : Prop where
  reachable : b.forest.Reachable
  opened_lt : ∀ i ∈ b.opened, i < b.forest.size

namespace Builder.Reached

open Forest

variable {b : Builder}

theorem current_lt (h : b.Reached) : b.current < b.forest.size := by
  rw [current]
  cases hopened : b.opened with
  | nil => exact h.reachable.consistent.closed.root_lt
  | cons i opened => exact h.opened_lt i (by rw [hopened]; exact List.mem_cons_self)

theorem start (h : b.Reached) (tag : String) : (b.start tag).Reached := by
  have hnew := h.reachable.step (.newNode tag) (by simp [Operation.named])
  refine ⟨hnew.step (.appendChild b.current b.forest.size) ?_, fun i hi => ?_⟩
  · have := h.current_lt
    simpa [Operation.named, perform] using Nat.lt_succ_of_lt this
  · rw [Builder.start, size_appendChild, size_add]
    rcases List.mem_cons.mp hi with rfl | hi
    · exact Nat.lt_succ_self _
    · exact Nat.lt_succ_of_lt (h.opened_lt i hi)

theorem text (h : b.Reached) (s : String) : (b.text s).Reached := by
  rw [Builder.text]
  split
  · rename_i last hlast
    have hlt := h.reachable.consistent.closed.child_lt (List.mem_of_getLast? hlast)
    refine ⟨h.reachable.step (.setTail last _) (by simpa [Operation.named] using hlt),
      fun i hi => ?_⟩
    rw [size_setTail]
    exact h.opened_lt i hi
  · refine ⟨h.reachable.step (.setText b.current _) (by simpa [Operation.named] using h.current_lt),
      fun i hi => ?_⟩
    rw [size_setText]
    exact h.opened_lt i hi

theorem finish (h : b.Reached) : b.finish.Reached :=
  ⟨h.reachable, fun i hi => h.opened_lt i (List.mem_of_mem_tail hi)⟩

theorem step (h : b.Reached) (e : Event) : (b.step e).Reached := by
  cases e with
  | start tag => exact h.start tag
  | text s => exact h.text s
  | finish => exact h.finish
  | leaf tag s => exact ((h.start tag).text s).finish

end Builder.Reached

namespace Forest

variable {f : Forest} {i : Nat}

theorem reachable_ofEvents (rootTag : String) (events : List Event) :
    (ofEvents rootTag events).Reachable := by
  have hrun : ∀ {b : Builder}, b.Reached → (events.foldl Builder.step b).Reached := by
    induction events with
    | nil => exact id
    | cons e events ih => exact fun h => ih (h.step e)
  exact (hrun ⟨.new rootTag, by simp⟩).reachable

/-! ## Parents -/

/-- No node of the tree is below two nodes of it. It may be below one of them several times. -/
def SingleParents (f : Forest) : Prop :=
  ∀ p ∈ f.preorder, ∀ q ∈ f.preorder, ∀ c ∈ f.children p, c ∈ f.children q → p = q

/-- The last edge to a node and the first node that has it as a child agree on its only parent. -/
theorem SingleParents.walkToParent?_eq (h : f.SingleParents) (i : NodeId) :
    f.walkToParent? i = (f.edges.reverse.find? (·.2 == i)).map Prod.fst := by
  have hedge : ∀ p c : NodeId, (p, c) ∈ f.edges.reverse ↔ p ∈ f.preorder ∧ c ∈ f.children p := by
    intro p c
    rw [List.mem_reverse, edges, List.mem_flatMap]
    simp
  rw [walkToParent?]
  cases hlast : f.edges.reverse.find? (·.2 == i) with
  | none =>
    refine List.find?_eq_none.mpr fun p hp hpi => ?_
    have hmem := (hedge p i).mpr ⟨hp, by simpa using hpi⟩
    exact List.find?_eq_none.mp hlast _ hmem (by simp)
  | some edge =>
    obtain ⟨p, c⟩ := edge
    obtain rfl : c = i := by simpa using List.find?_some hlast
    obtain ⟨hp, hpc⟩ := (hedge p c).mp (List.mem_of_find?_eq_some hlast)
    cases hfirst : f.preorder.find? fun q => (f.children q).contains c with
    | none => exact absurd (List.find?_eq_none.mp hfirst p hp) (by simpa using hpc)
    | some q =>
      have hqc : c ∈ f.children q := by simpa using List.find?_some hfirst
      rw [h q (List.mem_of_find?_eq_some hfirst) p hp c hqc hpc]
      rfl

theorem parent?_useIndex_false (f : Forest) (i : NodeId) :
    (f.useIndex false).parent? i = f.walkToParent? i := by
  have hpreorder : (f.useIndex false).preorder = f.preorder := preorder_congr rfl fun _ => rfl
  rw [parent?, if_neg (by simp [useIndex]), walkToParent?, walkToParent?, hpreorder]
  rfl

theorem Consistent.getElem?_scanParents_eq (h : f.Consistent) (ha : f.Acyclic)
    (hindexes : f.indexes = true) (hi : i < f.size) : f.scanParents[i]? = some (f.parent? i) := by
  have hscan : f.parent? i = f.scanParents[i]?.join := by
    rw [parent?, if_pos hindexes]
    cases hindex : f.index with
    | none => rfl
    | some a => exact h.index_eq a hindex ha i
  rw [hscan, getElem?_scanParents hi]
  rfl

/-- However the store has come about, its index has for each node the parent that a scan of the
present tree finds, and where no node has two parents, the one that the walk without an index finds.
-/
theorem parent?_of_reachable (h : f.Reachable) (ha : f.Acyclic) (hindexes : f.indexes = true) :
    (∀ i < f.size, f.scanParents[i]? = some (f.parent? i)) ∧
      (f.SingleParents → ∀ i < f.size, f.parent? i = (f.useIndex false).parent? i) := by
  refine ⟨fun i hi => h.consistent.getElem?_scanParents_eq ha hindexes hi, fun hsingle i hi => ?_⟩
  have hscan := h.consistent.getElem?_scanParents_eq ha hindexes hi
  rw [getElem?_scanParents hi, ← hsingle.walkToParent?_eq] at hscan
  rw [parent?_useIndex_false]
  exact (Option.some.inj hscan).symm

/-- A call is entered and asked for its parent. Then a comment is allocated, which the index does
not have, and looked for below the call, where it is not. -/
def lateComment : Forest :=
  [.newLeaf "call-stmt" "CALL F", .appendChild 0 1, .askParent 1, .newLeaf "C" "! c",
    .detach 1 2].foldl perform (new "file")

theorem parent?_of_reachable_lateComment :
    lateComment.Reachable ∧ lateComment.Acyclic ∧ lateComment.indexes = true ∧
      lateComment.SingleParents ∧ lateComment.index = some #[none, some 0] ∧
      (∀ i < 3, lateComment.scanParents[i]? = some (lateComment.parent? i)) ∧
        ∀ i < 3, lateComment.parent? i = (lateComment.useIndex false).parent? i := by
  have hreachable : lateComment.Reachable :=
    (((((Reachable.new "file").step (.newLeaf "call-stmt" "CALL F") (by decide)).step
      (.appendChild 0 1) (by decide)).step (.askParent 1) (by decide)).step
        (.newLeaf "C" "! c") (by decide)).step (.detach 1 2) (by decide)
  have hcarries : lateComment.Carries (.node 0 [.node 1 []]) :=
    carries_node.mpr ⟨by decide, by decide, by simp [Carries]; decide⟩
  have hsingle : lateComment.SingleParents := by
    unfold SingleParents
    decide
  obtain ⟨hscan, hwalk⟩ := parent?_of_reachable hreachable (hcarries.acyclic rfl) (by decide)
  exact ⟨hreachable, hcarries.acyclic rfl, by decide, hsingle, by decide, hscan, hwalk hsingle⟩

end Forest

end FortranLayout
