import FortranLayout.Proofs.Forest.Index
import FortranLayout.Proofs.Markers.Update
import FortranLayout.Proofs.Normalization.Refusal

/-!
# Passes are runs of operations

The passes edit a store through its operations only, and name allocated nodes only.
`Forest.Leads f g` says that such operations lead from `f` to `g`. There is one lemma for each
operation, one for each step of a pass, and `Pass.leads_run` for whole passes. So what holds of
every store that operations lead to holds after passes as well.

Edits of texts and tails may name any node: outside the store they do nothing. A child that is taken
out or moved is in the store because the store is closed, which is the part of `Forest.Consistent`
that is used here.
-/

namespace FortranLayout

namespace Forest

theorem update_of_le {f : Forest} {i : NodeId} (h : f.size ≤ i) (g : Node → Node) :
    f.update i g = f := by
  have hi : ¬ i < f.nodes.size := Nat.not_lt.mpr h
  simp [update, Array.modify, Array.modifyM, hi]

/-- One operation on allocated nodes makes `g` of `f`. -/
def Performs (f g : Forest) : Prop :=
  ∃ op : Operation, (∀ i ∈ op.named, i < f.size) ∧ f.perform op = g

/-- Operations on allocated nodes lead from `f` to `g`. -/
abbrev Leads : Forest → Forest → Prop := Relation.ReflTransGen Performs

namespace Leads

variable {f g : Forest} {d : Draft} {m : MarkerDraft} {a : Alignment} {i p c : Nat}

theorem perform (h : f.Leads g) (op : Operation) (hop : ∀ i ∈ op.named, i < g.size) :
    f.Leads (g.perform op) :=
  h.tail ⟨op, hop, rfl⟩

theorem consistent (h : f.Leads g) (hf : f.Consistent) : g.Consistent := by
  induction h with
  | refl => exact hf
  | tail _ hstep ih =>
    obtain ⟨op, hop, rfl⟩ := hstep
    exact ih.perform op hop

theorem reachable (h : f.Leads g) (hf : f.Reachable) : g.Reachable := by
  induction h with
  | refl => exact hf
  | tail _ hstep ih =>
    obtain ⟨op, hop, rfl⟩ := hstep
    exact ih.step op hop

/-! ## Operations -/

theorem setText (h : f.Leads g) (i : NodeId) (t : String) : f.Leads (g.setText i t) := by
  rcases Nat.lt_or_ge i g.size with hi | hi
  · exact h.perform (.setText i t) (by simpa [Operation.named] using hi)
  · rwa [Forest.setText, update_of_le hi]

theorem setTail (h : f.Leads g) (i : NodeId) (t : String) : f.Leads (g.setTail i t) := by
  rcases Nat.lt_or_ge i g.size with hi | hi
  · exact h.perform (.setTail i t) (by simpa [Operation.named] using hi)
  · rwa [Forest.setTail, update_of_le hi]

theorem appendBefore (h : f.Leads g) (p : NodeId) (k : Nat) (t : String) :
    f.Leads (g.appendBefore p k t) := by
  unfold Forest.appendBefore
  split
  · exact h.setText _ _
  · split
    · exact h.setTail _ _
    · exact h

theorem add (h : f.Leads g) (tag text tail : String) : f.Leads (g.add { tag, text, tail }) := by
  have hleaf : f.Leads (g.add { tag, text }) :=
    h.perform (.newLeaf tag text) (by simp [Operation.named])
  have htail : (g.add { tag, text }).setTail g.size tail = g.add { tag, text, tail } :=
    update_add_size g _ _
  rw [← htail]
  exact hleaf.setTail _ _

theorem setTag (h : f.Leads g) (hi : i < g.size) (tag : String) : f.Leads (g.setTag i tag) :=
  h.perform (.setTag i tag) (by simpa [Operation.named] using hi)

theorem insertChild (h : f.Leads g) (hp : p < g.size) (k : Nat) (hc : c < g.size) :
    f.Leads (g.insertChild p k c) :=
  h.perform (.insertChild p k c) (by simpa [Operation.named] using ⟨hp, hc⟩)

theorem appendChild (h : f.Leads g) (hp : p < g.size) (hc : c < g.size) :
    f.Leads (g.appendChild p c) :=
  h.perform (.appendChild p c) (by simpa [Operation.named] using ⟨hp, hc⟩)

theorem detach (hf : f.Consistent) (h : f.Leads g) (p c : NodeId) : f.Leads (g.detach p c) := by
  by_cases hc : c ∈ g.children p
  · have hp := lt_size_of_mem_children hc
    have hlt := (h.consistent hf).closed.child_lt hc
    exact h.perform (.detach p c) (by simpa [Operation.named] using ⟨hp, hlt⟩)
  · rwa [Forest.detach, if_neg hc]

theorem removeChild (hf : f.Consistent) (h : f.Leads g) (p c : NodeId) :
    f.Leads (g.removeChild p c) := by
  rw [Forest.removeChild]
  split
  · exact ((h.detach hf p c).setTail c "").appendBefore _ _ _
  · exact h

theorem indexed (hf : f.Consistent) (h : f.Leads g) : f.Leads g.indexed :=
  h.perform (.askParent root) (by simpa [Operation.named] using (h.consistent hf).closed.root_lt)

/-- `F` reads the store off what is carried from step to step. -/
theorem foldl {σ α : Type} {F : σ → Forest} {step : σ → α → σ} {s : σ} {l : List α}
    (h : f.Leads (F s)) (hstep : ∀ x ∈ l, ∀ s, f.Leads (F s) → f.Leads (F (step s x))) :
    f.Leads (F (l.foldl step s)) := by
  induction l generalizing s with
  | nil => exact h
  | cons x xs ih =>
    obtain ⟨hx, hxs⟩ := List.forall_mem_cons.mp hstep
    exact ih (hx s h) hxs

theorem ite {σ : Type} {F : σ → Forest} {b : Prop} [Decidable b] {s t : σ} (hs : f.Leads (F s))
    (ht : f.Leads (F t)) : f.Leads (F (if b then s else t)) := by
  split
  · exact hs
  · exact ht

theorem detachAll (hf : f.Consistent) (h : f.Leads g) (p : NodeId) (cs : List NodeId) :
    f.Leads (cs.foldl (fun g c => g.detach p c) g) :=
  foldl (F := id) h fun c _ _ hg => hg.detach hf p c

/-! ## Edits of texts and tails -/

variable {e : List Char → List Char} {v : Nat → List Char → List Char}

theorem editTail (h : f.Leads d.forest) (i : NodeId) : f.Leads (d.editTail i e).forest := by
  rw [Draft.editTail]
  split
  · exact h
  · exact h.setTail i _

theorem editText (h : f.Leads d.forest) (i : NodeId) : f.Leads (d.editText i e).forest := by
  rw [Draft.editText]
  split
  · exact h
  · exact h.setText i _

theorem editCode (h : f.Leads d.forest) (i : NodeId) : f.Leads (d.editCode i e).forest := by
  rw [Draft.editCode]
  split
  · exact h.editTail i
  · exact (h.editTail i).editText i

theorem fitTail (h : f.Leads d.forest) (i : NodeId) (w : Width) :
    f.Leads (d.fitTail i w v).forest := by
  cases w with
  | keep => exact h
  | exactly n => exact h.editTail i

theorem fitText (h : f.Leads d.forest) (i : NodeId) (w : Width) :
    f.Leads (d.fitText i w v).forest := by
  cases w with
  | keep => exact h
  | exactly n => exact h.editText i

theorem fitCode (h : f.Leads d.forest) (i : NodeId) (w : Width) :
    f.Leads (d.fitCode i w v).forest := by
  cases w with
  | keep => exact h
  | exactly n => exact h.editCode i

/-! ## Comments, blank lines and letters -/

theorem removeWithin (hf : f.Consistent) (o : CommentOptions) (fuel : Nat)
    (h : f.Leads d.forest) (p : NodeId) :
    f.Leads (o.removeWithin fuel p d).forest := by
  induction fuel generalizing d p with
  | zero => exact h
  | succ fuel ih =>
    refine h.foldl (F := Draft.forest) fun c _ d hd => ?_
    split
    · exact hd.removeChild hf p c
    · exact ih hd c

theorem removeComments (hf : f.Consistent) (h : f.Leads g) (o : CommentOptions) :
    f.Leads (removeComments o g).forest := removeWithin (d := { forest := g }) hf o _ h root

theorem removeEmptyLines (h : f.Leads g) : f.Leads (removeEmptyLines g).forest := by
  unfold FortranLayout.removeEmptyLines
  refine foldl (F := Draft.forest) ?_ fun i _ d hd => hd.editTail i
  split
  · exact editText (d := { forest := g }) h _
  · exact h

theorem convertCase (h : f.Leads g) (mode : CaseMode) : f.Leads (convertCase mode g).forest := by
  have hconvert : ∀ e : List Char → List Char, f.Leads (g.preorder.foldl
      (fun (d : Draft) i => if (d.forest.kind i).isNonCode then d else d.editText i e)
        { forest := g }).forest :=
    fun e => foldl (F := Draft.forest) h fun i _ _ hd => ite hd (hd.editText i)
  cases mode with
  | keep => exact h
  | lower => exact hconvert _
  | upper => exact hconvert _

/-! ## Statements -/

/-- The three nodes that a conversion allocates are numbered from the size of the store. -/
theorem toIfConstruct (hf : f.Consistent) (h : f.Leads g) {condition statement : Nat}
    (hi : i < g.size) (hcondition : condition < g.size) (hstatement : statement < g.size)
    (action : NodeId) (level : Nat) :
    f.Leads (g.toIfConstruct i condition action statement level) := by
  unfold Forest.toIfConstruct
  extract_lets block header closing opening tagged withBlock withHeader allocated
    untitled cut ended headed emptied taken placed begun filled closed markers unmarked
  have hallocated : f.Leads allocated := (((h.setTag hi _).add _ "" "").add _ _ _).add _ _ ""
  have hended : f.Leads ended :=
    ((hallocated.setText i "").detach hf i condition).setTail condition _
  have hsize : ended.size = g.size + 3 := by
    simp [ended, cut, untitled, allocated, withHeader, withBlock, tagged]
  have hheaded : f.Leads headed := hended.appendChild (by omega) (by omega)
  have hplaced : f.Leads placed :=
    ((hheaded.detach hf i action).detach hf action statement).setTail statement _
  have hsize : placed.size = g.size + 3 := by simp [placed, taken, emptied, headed, hsize]
  have hbegun : f.Leads begun := hplaced.appendChild (by omega) (by omega)
  have hsize : begun.size = g.size + 3 := by simp [begun, hsize]
  have hfilled : f.Leads filled := hbegun.appendChild (by omega) (by omega)
  have hsize : filled.size = g.size + 3 := by simp [filled, hsize]
  have hclosed : f.Leads closed := hfilled.appendChild (by omega) (by omega)
  have hunmarked : f.Leads unmarked := hclosed.detachAll hf i markers
  have hsize : unmarked.size = g.size + 3 := by simp [unmarked, closed, hsize]
  exact hunmarked.appendChild (by omega) (by omega)

/-- What is asked for among the children of a node is in the store. -/
theorem convertIf (hf : f.Consistent) (h : f.Leads d.forest) (parent : Option NodeId) (i : NodeId) :
    f.Leads (Forest.convertIf d parent i).forest := by
  unfold Forest.convertIf
  dsimp only
  split
  · split
    · rename_i condition action statement hparts
      have hc := (h.consistent hf).closed
      obtain ⟨hcondition, haction, hstatement⟩ : condition ∈ d.forest.children i ∧
          action ∈ d.forest.children i ∧ statement ∈ d.forest.children action := by
        simp only [oneLineIf?, childOfKind?, firstChild?, bind, pure,
          Option.bind_eq_some_iff] at hparts
        obtain ⟨_, h₁, _, h₂, _, h₃, heq⟩ := hparts
        cases heq
        exact ⟨List.mem_of_find?_eq_some h₁, List.mem_of_find?_eq_some h₂, List.mem_of_mem_head? h₃⟩
      exact h.toIfConstruct hf (lt_size_of_mem_children hcondition) (hc.child_lt hcondition)
        (hc.child_lt hstatement) action _
    · exact h
  · exact h

theorem convertIfStatements (hf : f.Consistent) (h : f.Leads g) :
    f.Leads (convertIfStatements g).forest :=
  foldl (F := Draft.forest) (s := { forest := g }) h fun i _ _ hd => hd.convertIf hf none i

theorem dropContains (hf : f.Consistent) (h : f.Leads d.forest) (i : NodeId) :
    f.Leads (Forest.dropContains d i).forest := by
  unfold Forest.dropContains
  split
  · split
    · exact h.detach hf _ i
    · exact h
  · exact h

theorem removeEmptyContains (hf : f.Consistent) (h : f.Leads g) :
    f.Leads (removeEmptyContains g).forest :=
  foldl (F := Draft.forest) (s := { forest := g }) h fun i _ _ hd => hd.dropContains hf i

/-! ## Indentation -/

theorem setLevel (h : f.Leads d.forest) (q : IndentParams) (i : NodeId) (level : Nat)
    (next : Option NodeId) :
    f.Leads (q.setLevel d i level next).forest := h.editTail i

theorem setLevelAfterLast (h : f.Leads d.forest) (q : IndentParams)
    (i : Option NodeId) (level : Nat)
    (next : NodeId) : f.Leads (q.setLevelAfterLast d i level next).forest := by
  rw [IndentParams.setLevelAfterLast]
  split
  · exact h.setLevel q _ _ _
  · exact h

theorem closeAt (h : f.Leads d.forest) (q : IndentParams)
    (inside previous : Option NodeId) (level : Nat)
    (child : NodeId) : f.Leads (q.closeAt d inside previous level child).forest := by
  unfold IndentParams.closeAt
  split
  · split
    · exact h.setLevel q _ _ _
    · exact h
  · exact h

theorem closeArm (h : f.Leads d.forest) (q : IndentParams) (level : Nat) (arm : NodeId) :
    f.Leads (q.closeArm d level arm).forest := by
  unfold IndentParams.closeArm
  split
  · exact h.setLevel q _ _ _
  · exact h

mutual

theorem indentBelow (q : IndentParams) (level : Nat) (inside : Option NodeId) :
    ∀ (s : Shape) (d : Draft), f.Leads d.forest → f.Leads (q.indentBelow level inside s d).forest
  | .node i cs, d, h => by
    rw [IndentParams.indentBelow]
    exact indentFrom q level inside _ level none cs d h

theorem indentFrom (q : IndentParams) (level : Nat) (inside : Option NodeId)
    (inSelect : Bool) (current : Nat) (previous : Option NodeId) :
    ∀ (ss : List Shape) (d : Draft), f.Leads d.forest →
      f.Leads (q.indentFrom level inside inSelect current previous ss d).forest
  | [], d, h => by
    rw [IndentParams.indentFrom]
    exact h
  | s :: rest, d, h => by
    rw [IndentParams.indentFrom]
    refine indentFrom q level inside inSelect _ _ rest _ (closeAt ?_ q inside previous level s.id)
    have hline :=
      h.setLevel q s.id (q.levelAfter d.forest inside current s.id) (rest.head?.map Shape.id)
    split
    · exact (indentBelow q _ none s _ (hline.setLevelAfterLast q previous _ s.id)).closeArm
        q level s.id
    · split
      · refine indentBelow q _ _ s _ ?_
        split
        · exact hline.setLevelAfterLast q previous level s.id
        · exact hline
      · exact hline

end

theorem indentSubtree (h : f.Leads g) (q : IndentParams) (i : NodeId) (base : Nat) :
    f.Leads (indentSubtree q i base g).forest := indentBelow q base none _ { forest := g } h

/-! ## Continuation markers -/

theorem insertMarker (h : f.Leads m.forest) (hp : p < m.forest.size) (k : Nat) (tail : List Char) :
    f.Leads (m.insertMarker p k tail).forest :=
  (h.add "cnt" "&" _).insertChild (by simp; omega) k (by simp)

theorem addBegin (h : f.Leads m.forest) (hp : p < m.forest.size) (k : Nat) (marker : NodeId)
    (comments : List NodeId) (next : Option NodeId) :
    f.Leads (m.addBegin p k marker comments next).forest := by
  have hcut : ∀ i t k tail,
      f.Leads (({ m with forest := m.forest.setTail i t }).insertMarker p k tail).forest :=
    fun i t k tail => insertMarker (h.setTail i t) (by simpa using hp) k tail
  unfold MarkerDraft.addBegin
  dsimp only
  split
  · exact hcut _ _ _ _
  · split
    · split
      · exact h.insertMarker hp _ _
      · exact hcut _ _ _ _
    · exact h

theorem removeMarker (hf : f.Consistent) (h : f.Leads m.forest) (p : NodeId) (k : Nat)
    (marker : NodeId)
    (comments : List NodeId) : f.Leads (m.removeMarker p k marker comments).forest := by
  unfold MarkerDraft.removeMarker
  dsimp only
  have hdropped := h.detachAll hf p (comments.reverse.filter (m.forest.kind · != .directive))
  split
  · exact hdropped
  · exact (hdropped.detach hf p marker).appendBefore _ _ _

theorem reviseChild (hf : f.Consistent) (h : f.Leads m.forest) (hp : p < m.forest.size)
    (o : MarkerOptions)
    (k : Nat) (child : NodeId) : f.Leads (m.reviseChild o p k child).forest := by
  unfold MarkerDraft.reviseChild
  dsimp only
  split
  · have hbegin : ∀ comments next (on : Bool),
        f.Leads (if on then m.addBegin p k child comments next else m).forest := by
      intro comments next on
      cases on with
      | false => exact h
      | true => exact h.addBegin hp k child comments next
    split
    · exact (hbegin _ _ _).removeMarker hf p k child _
    · exact hbegin _ _ _
  · exact h

theorem revise (hf : f.Consistent) (h : f.Leads m.forest) (o : MarkerOptions) (i : NodeId) :
    f.Leads (MarkerDraft.revise o i m).forest := by
  refine MarkerDraft.reviseWithin_induct (P := fun m => f.Leads m.forest)
    (Q := fun _ => True) ?_ _ h trivial
  intro m p pre c post hm _ hchildren
  have hp : p < m.forest.size := lt_size_of_mem_children (j := c) (by simp [hchildren])
  exact ⟨hm.reviseChild hf hp o pre.length c, trivial⟩

theorem alignTail (h : f.Leads a.forest) (i : NodeId) (column : Nat) :
    f.Leads (a.alignTail i column).forest := by
  unfold Alignment.alignTail
  dsimp only
  split
  · exact h
  · exact h.setTail i _

theorem findColumn (h : f.Leads a.forest) (p : NodeId) (next : Option Kind) :
    f.Leads (a.findColumn p next).forest := by
  unfold Alignment.findColumn
  split <;> exact h

theorem alignAfter (h : f.Leads a.forest) (p i : NodeId) (next : Option Kind)
    (afterComment : Bool) :
    f.Leads (a.alignAfter p i next afterComment).forest := by
  have hcolumn : ∀ on : Bool, f.Leads (if on then a.findColumn p next else a).forest := by
    intro on
    cases on with
    | false => exact h
    | true => exact h.findColumn p next
  unfold Alignment.alignAfter
  dsimp only
  split
  · split
    · exact hcolumn _
    · exact (hcolumn _).alignTail i _
  · exact h

theorem readText (h : f.Leads a.forest) (i : NodeId) : f.Leads (a.readText i).forest := by
  unfold Alignment.readText
  split <;> exact h

theorem readTail (h : f.Leads a.forest) (i : NodeId) : f.Leads (a.readTail i).forest := by
  unfold Alignment.readTail
  dsimp only
  split
  · exact h
  · split <;> exact h

mutual

theorem alignBelow :
    ∀ (s : Shape) (a : Alignment), f.Leads a.forest → f.Leads (Alignment.alignBelow s a).forest
  | .node i cs, a, h => by
    rw [Alignment.alignBelow]
    exact alignFrom i false cs a h

theorem alignFrom (p : NodeId) (afterComment : Bool) :
    ∀ (ss : List Shape) (a : Alignment), f.Leads a.forest →
      f.Leads (Alignment.alignFrom p afterComment ss a).forest
  | [], a, h => by
    rw [Alignment.alignFrom]
    exact h
  | s :: rest, a, h => by
    rw [Alignment.alignFrom]
    exact alignFrom p _ rest _
      ((alignBelow s _ ((h.alignAfter p s.id _ _).readText s.id)).readTail s.id)

end

theorem applyMarkers (hf : f.Consistent) (h : f.Leads g) (o : MarkerOptions) (i : NodeId) :
    f.Leads (o.apply i g).forest := by
  have hrevised : f.Leads (MarkerDraft.revise o i { forest := g }).forest := revise hf h o i
  unfold MarkerOptions.apply
  dsimp only
  split
  · exact alignBelow _ _ (hrevised.indexed hf)
  · exact hrevised

/-! ## Spacing -/

section

variable (r : SpacingRules)

theorem punctuation (h : f.Leads d.forest) (i : NodeId) : f.Leads (r.punctuation d i).forest := by
  unfold SpacingRules.punctuation
  refine ite (editTail ?_ i) ?_ <;>
    exact ((((ite (h.editTail i) h).fitCode i _).fitCode i _).fitCode i _).fitCode i _

theorem equalSign (h : f.Leads d.forest) (i : NodeId) (before after : Width) :
    f.Leads (SpacingRules.equalSign d i before after).forest := (h.fitTail i before).fitTail i after

theorem nameGaps (h : f.Leads d.forest) (i : NodeId) : f.Leads (r.nameGaps d i).forest :=
  (ite (foldl (F := Draft.forest) h fun part _ _ hd => hd.editTail part) h).fitTail i _

theorem separatorGaps (h : f.Leads d.forest) (i : NodeId) :
    f.Leads (r.separatorGaps d i).forest := by
  unfold SpacingRules.separatorGaps
  refine fitTail ?_ i _
  split
  · exact h.fitTail _ _
  · exact h

theorem associationGaps (h : f.Leads d.forest) (i : NodeId) :
    f.Leads (r.associationGaps d i).forest := by
  unfold SpacingRules.associationGaps
  refine ite (editTail ?_ i) ?_ <;> exact (h.fitTail i _).fitTail i _

theorem keywordGap (h : f.Leads d.forest) (i : NodeId) : f.Leads (r.keywordGap d i).forest := by
  unfold SpacingRules.keywordGap
  split
  · exact h
  · split
    · exact ite (h.editText i) h
    · exact h

theorem kindGaps (h : f.Leads d.forest) (i : NodeId) : f.Leads (r.kindGaps d i).forest := by
  unfold SpacingRules.kindGaps
  dsimp only
  split
  case h_1 | h_2 | h_3 => exact h.nameGaps r i
  case h_4 => exact ite ((h.fitTail i _).fitTail i _) h
  case h_5 => exact ite ((h.fitTail i _).fitTail i _) h
  case h_6 => exact h.editTail i
  case h_7 => exact (h.editTail i).fitTail i _
  case h_8 => exact ite h (ite (h.editText i) (h.fitText i _))
  case h_9 | h_10 => exact ite (h.fitText i _) h
  case h_11 | h_12 | h_13 => exact ite (h.equalSign i _ _) h
  case h_14 | h_15 => exact ite (h.equalSign i _ _) h
  case h_16 => exact h.separatorGaps r i
  case h_17 => exact ite (h.associationGaps r i) h
  case h_18 => exact h.keywordGap r i

theorem firstRound (h : f.Leads d.forest) (i : NodeId) : f.Leads (r.firstRound d i).forest :=
  (h.punctuation r i).kindGaps r i

theorem aroundChildren (h : f.Leads d.forest) (i : NodeId) (kind : Kind) (before after : Width) :
    f.Leads (SpacingRules.aroundChildren d i kind before after).forest := by
  refine foldl (F := Draft.forest) h fun (previous, child) _ d hd => ?_
  cases previous with
  | none => exact ite (hd.fitTail child after) hd
  | some before => exact ite ((hd.fitTail before _).fitTail child after) hd

theorem operators (h : f.Leads d.forest) (i : NodeId) : f.Leads (r.operators d i).forest := by
  have haround := h.aroundChildren i .op r.beforeOp r.afterOp
  refine ite (foldl (F := Draft.forest) haround fun op _ d hd => ?_) haround
  exact foldl (F := Draft.forest) hd fun part _ _ hd => hd.editTail part

theorem affectations (h : f.Leads d.forest) (i : NodeId) : f.Leads (r.affectations d i).forest := by
  have haround := h.aroundChildren i .affectation r.beforeAffectation r.afterAffectation
  exact ite (foldl (F := Draft.forest) haround fun sign _ _ hd => hd.editText sign) haround

theorem actionGap (h : f.Leads d.forest) (i : NodeId) (part : Kind) :
    f.Leads (r.actionGap d i part).forest := by
  unfold SpacingRules.actionGap
  split
  · exact h.fitTail _ _
  · exact h

theorem conditionalKeyword (h : f.Leads d.forest) (i : NodeId) :
    f.Leads (r.conditionalKeyword d i).forest :=
  ite (ite (h.fitText i _) h) (h.fitText i _)

theorem conditional (h : f.Leads d.forest) (i : NodeId) : f.Leads (r.conditional d i).forest := by
  have hkeyword := h.conditionalKeyword r i
  unfold SpacingRules.conditional
  dsimp only
  split
  case h_1 | h_2 =>
    split
    · exact hkeyword.fitTail _ _
    · exact hkeyword
  case h_3 | h_4 | h_5 => exact hkeyword.actionGap r i _
  case h_6 => exact hkeyword

theorem secondRound (h : f.Leads d.forest) (i : NodeId) : f.Leads (r.secondRound d i).forest := by
  unfold SpacingRules.secondRound
  split
  case h_1 => exact h.operators r i
  case h_2 | h_3 => exact h.affectations r i
  case h_14 => exact h
  all_goals exact h.conditional r i

theorem markerGap (h : f.Leads d.forest) (p : NodeId) (previous : Option NodeId) (marker : NodeId) :
    f.Leads (r.markerGap d p previous marker).forest := by
  refine ite (ite h (h.fitTail marker _)) ?_
  cases previous with
  | none => exact h.fitText p _
  | some before => exact h.fitTail before _

theorem thirdRound (h : f.Leads d.forest) (p : NodeId) : f.Leads (r.thirdRound d p).forest :=
  foldl (F := Draft.forest) h fun (previous, child) _ _ hd =>
    ite (hd.markerGap r p previous child) hd

theorem fourthRound (h : f.Leads d.forest) (order : List NodeId) (entry : AdjacentKeyword) :
    f.Leads (r.fourthRound order d entry).forest := by
  unfold SpacingRules.fourthRound
  split
  · exact foldl (F := Draft.forest) h fun i _ _ hd => ite (hd.editText i) hd
  · exact h

theorem applySpacing (hf : f.Consistent) (h : f.Leads g) : f.Leads (r.apply g).forest := by
  have hstart : f.Leads (Draft.forest { forest := g.indexed }) := h.indexed hf
  have hfirst := foldl (F := Draft.forest) (l := g.preorder) hstart fun i _ _ hd =>
    hd.firstRound r i
  have hsecond := foldl (F := Draft.forest) (l := g.preorder) hfirst fun i _ _ hd =>
    hd.secondRound r i
  have hthird := foldl (F := Draft.forest) (l := g.preorder) hsecond fun p _ _ hd =>
    hd.thirdRound r p
  exact foldl (F := Draft.forest) hthird fun entry _ _ hd => hd.fourthRound r g.preorder entry

end

/-! ## Whole runs -/

theorem runPass (h : f.Leads g) {pass : Forest → Draft}
    (hpass : f.Leads (pass g).forest) (on : Bool) :
    f.Leads (runPass on pass g).forest := ite hpass h

theorem runSettings (hf : f.Consistent) (h : f.Leads g) (s : Settings) : f.Leads (s.run g).1 := by
  have hcomments := h.runPass (h.removeComments hf s.comments) s.passes.removeComments
  have hifs := hcomments.runPass (hcomments.convertIfStatements hf) s.passes.convertIfStatements
  have hcontains := hifs.runPass (hifs.removeEmptyContains hf) s.passes.removeEmptyContains
  have hlines := hcontains.runPass hcontains.removeEmptyLines s.passes.removeEmptyLines
  have hspacing := hlines.runPass (hlines.applySpacing s.spacing hf) s.passes.spacing
  have hindent := hspacing.runPass (hspacing.indentSubtree s.indent root 0) s.passes.indent
  exact convertCase (ite (hindent.applyMarkers hf s.continuation root) hindent) s.passes.case

end Leads

end Forest

/-! ## Passes -/

/-- The passes over a store, with their options. -/
inductive Pass where
  | removeComments (o : CommentOptions)
  | convertIfStatements
  /-- The conversion of one statement, a child of `parent` if that is given. -/
  | convertIfStatement (i : NodeId) (parent : Option NodeId)
  | removeEmptyContains
  | removeEmptyLines
  | updateSpacing (r : SpacingRules)
  | indentSubtree (p : IndentParams) (i : NodeId) (base : Nat)
  | updateContinuation (o : MarkerOptions) (i : NodeId)
  | convertCase (mode : CaseMode)
  /-- All passes that are switched on, one after the other. -/
  | normalize (s : Settings)

namespace Pass

/-- The store that a pass leaves behind. A pass whose options are refused does nothing. -/
def run (f : Forest) : Pass → Forest
  | removeComments o => (FortranLayout.removeComments o f).forest
  | convertIfStatements => (FortranLayout.convertIfStatements f).forest
  | convertIfStatement i parent => (FortranLayout.convertIfStatement i parent f).forest
  | removeEmptyContains => (FortranLayout.removeEmptyContains f).forest
  | removeEmptyLines => (FortranLayout.removeEmptyLines f).forest
  | updateSpacing r =>
    match FortranLayout.updateSpacing r f with
    | .ok d => d.forest
    | .error _ => f
  | indentSubtree p i base => (FortranLayout.indentSubtree p i base f).forest
  | updateContinuation o i =>
    match FortranLayout.updateContinuation o i f with
    | .ok m => m.forest
    | .error _ => f
  | convertCase mode => (FortranLayout.convertCase mode f).forest
  | normalize s =>
    match (normalizeInPlace s).run f with
    | .ok _ g => g
    | .error _ g => g

/-- A pass is a run of operations on allocated nodes. -/
theorem leads_run {f : Forest} (hf : f.Consistent) (p : Pass) : f.Leads (p.run f) := by
  have hstart : f.Leads f := .refl
  cases p with
  | removeComments o => exact hstart.removeComments hf o
  | convertIfStatements => exact hstart.convertIfStatements hf
  | convertIfStatement i parent =>
    exact Forest.Leads.convertIf (d := { forest := f }) hf hstart parent i
  | removeEmptyContains => exact hstart.removeEmptyContains hf
  | removeEmptyLines => exact hstart.removeEmptyLines
  | updateSpacing r =>
    rw [run, FortranLayout.updateSpacing]
    cases r.validate with
    | ok _ => exact hstart.applySpacing r hf
    | error _ => exact hstart
  | indentSubtree q i base => exact hstart.indentSubtree q i base
  | updateContinuation o i =>
    rw [run, FortranLayout.updateContinuation]
    cases o.validate with
    | ok _ => exact hstart.applyMarkers hf o i
    | error _ => exact hstart
  | convertCase mode => exact hstart.convertCase mode
  | normalize s =>
    rw [run]
    cases hs : s.validate with
    | ok _ =>
      rw [normalizeInPlace_of_validate hs]
      exact hstart.runSettings hf s
    | error _ =>
      rw [normalizeInPlace_of_error hs]

end Pass

/-- After a pass, too, a store is one that operations lead to. -/
theorem Forest.Reachable.pass {f : Forest} (h : f.Reachable) (p : Pass) : (p.run f).Reachable :=
  (p.leads_run h.consistent).reachable h

end FortranLayout
