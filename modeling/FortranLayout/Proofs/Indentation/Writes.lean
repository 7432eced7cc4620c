import FortranLayout.Proofs.Indentation.Refinement
import FortranLayout.Proofs.Spacing.Spread

/-!
# The writes of the indentation

Whether and where re-indenting writes a level depends on the kinds, tags, texts and children of the
nodes, not on their tails. So the writes can be listed before the first of them is made
(`IndentParams.writesBelow`), and the walk makes the writes of the list one after the other
(`indentSubtree_eq`). A tail may be written several times; what is left of its writes is the last
level among them (`tail_writeLevels`). A second walk has the same list, so it leaves the store as it
finds it (`indentSubtree_indentSubtree`).
-/

namespace FortranLayout

/-! ## Levels written over one another -/

namespace IndentParams

/-- A tail after a write: with the given level after its newlines, or with its tabs expanded only.
-/
def relevel : Option Nat → List Char → List Char
  | none => Text.expandTabs
  | some level => atLevel level

theorem tab_not_mem_atLevel (level : Nat) (s : List Char) : '\t' ∉ atLevel level s := by
  rw [atLevel, ← Text.mem_squeeze (by decide), Text.Pattern.squeeze_everywhere,
    Text.mem_squeeze (by decide)]
  exact Text.tab_not_mem_expandTabs s

theorem relevel_nil (level : Option Nat) : relevel level [] = [] := by
  cases level <;> rfl

/-- A later level replaces an earlier one; expanding tabs does nothing to a tail that has been
written. -/
theorem relevel_relevel (later earlier : Option Nat) (s : List Char) :
    relevel later (relevel earlier s) = relevel (later.or earlier) s := by
  have htabs : '\t' ∉ relevel earlier s := by
    cases earlier with
    | none => exact Text.tab_not_mem_expandTabs s
    | some level => exact tab_not_mem_atLevel level s
  cases later with
  | none => exact Text.expandTabs_eq_self htabs
  | some level =>
    rw [relevel, atLevel, Text.expandTabs_eq_self htabs]
    cases earlier with
    | none => rfl
    | some earlier => exact Text.Pattern.everywhere_everywhere_after_newline level earlier _

end IndentParams

/-! ## Lists of writes -/

/-- A write to the tail of a node. -/
structure LevelWrite where
  node : NodeId
  /-- The level of the lines that start in the tail, unless they keep their indentation. -/
  level : Option Nat
deriving DecidableEq, Repr

namespace LevelWrite

/-- Whether a tail is written at all. -/
def reach (ws : List LevelWrite) (j : NodeId) : Bool := ws.any (·.node == j)

/-- The last level that is written to the tail of a node. -/
def last? (ws : List LevelWrite) (j : NodeId) : Option Nat :=
  ws.reverse.findSome? fun w => if w.node = j then w.level else none

variable {ws : List LevelWrite} {w : LevelWrite} {j : NodeId}

theorem reach_concat : reach (ws ++ [w]) j = (reach ws j || w.node == j) := by
  simp [reach]

theorem last?_concat :
    last? (ws ++ [w]) j = if w.node = j then w.level.or (last? ws j) else last? ws j := by
  rw [last?, List.reverse_concat, List.findSome?_cons, ← last?]
  by_cases hj : w.node = j
  · rw [if_pos hj, if_pos hj]
    cases w.level <;> rfl
  · rw [if_neg hj, if_neg hj]

theorem last?_of_not_reach (h : reach ws j = false) : last? ws j = none := by
  rw [reach, List.any_eq_false] at h
  rw [last?, List.findSome?_eq_none_iff]
  intro w hw
  rw [if_neg]
  simpa using h w (List.mem_reverse.mp hw)

/-- Where all writes keep the line, no level is written. -/
theorem last?_eq_none (h : ∀ w ∈ ws, w.node = j → w.level = none) : last? ws j = none := by
  rw [last?, List.findSome?_eq_none_iff]
  intro w hw
  split
  · exact h w (List.mem_reverse.mp hw) ‹_›
  · rfl

end LevelWrite

namespace Draft

/-- Makes one write. -/
def writeLevel (d : Draft) (w : LevelWrite) : Draft :=
  d.editTail w.node (IndentParams.relevel w.level)

/-- Makes writes one after the other. -/
def writeLevels (d : Draft) (ws : List LevelWrite) : Draft := ws.foldl writeLevel d

theorem writeLevels_append (d : Draft) (ws ws' : List LevelWrite) :
    d.writeLevels (ws ++ ws') = (d.writeLevels ws).writeLevels ws' := List.foldl_append

end Draft

/-- `g` is `f` with other tails. -/
def Forest.SameButTails (f g : Forest) : Prop := ∃ js, f.Retailed g js

namespace Forest.SameButTails

variable {f g : Forest} {d : Draft}

theorem refl (f : Forest) : f.SameButTails f := ⟨[], .refl f []⟩

/-- What has the same tails too is the same. -/
theorem eq_of_tail (h : f.SameButTails g) (htail : ∀ j, g.tail j = f.tail j) : g = f := by
  obtain ⟨_, hr⟩ := h
  have hnodes : g.nodes = f.nodes := by
    refine Array.ext hr.size_eq fun j hg hf => ?_
    have hnode : g.node j = f.node j := by rw [hr.node_eq, htail, tail]
    simpa [node, hg, hf] using hnode
  have hindexes := hr.indexes_eq
  have hindex := hr.index_eq
  cases f
  cases g
  simp_all

theorem writeLevel (h : f.SameButTails d.forest) (w : LevelWrite) :
    f.SameButTails (d.writeLevel w).forest := by
  obtain ⟨js, hr⟩ := h
  refine ⟨w.node :: js, (hr.mono (List.subset_cons_self _ _)).trans ?_⟩
  rw [Draft.writeLevel, Draft.editTail]
  split
  · exact .refl _ _
  · exact .setTail List.mem_cons_self _

theorem writeLevels (h : f.SameButTails d.forest) (ws : List LevelWrite) :
    f.SameButTails (d.writeLevels ws).forest := by
  induction ws generalizing d with
  | nil => exact h
  | cons w ws ih => exact ih (h.writeLevel w)

end Forest.SameButTails

namespace Draft

theorem tail_writeLevel (d : Draft) (w : LevelWrite) (j : NodeId) :
    ((d.writeLevel w).forest.tail j).toList =
      if w.node = j then IndentParams.relevel w.level (d.forest.tail j).toList
      else (d.forest.tail j).toList := by
  rw [writeLevel, editTail]
  by_cases hj : w.node = j
  · subst hj
    rw [if_pos rfl]
    split
    · rename_i hsame
      have hlist := congrArg String.toList hsame
      rw [String.toList_ofList] at hlist
      exact hlist.symm
    · by_cases hlt : w.node < d.forest.size
      · rw [Forest.tail, Forest.node_setTail_self hlt, String.toList_ofList, Forest.tail]
      · -- Outside the store all tails are empty.
        have hle := Nat.le_of_not_lt hlt
        rw [Forest.tail, Forest.setTail, Forest.node_update_of_le hle, Forest.tail,
          Forest.node_of_le hle]
        exact (IndentParams.relevel_nil w.level).symm
  · rw [if_neg hj]
    split
    · rfl
    · rw [Forest.tail, Forest.node_setTail_of_ne fun e => hj e.symm, Forest.tail]

/-- Of all that is written to a tail the last level is left. -/
theorem tail_writeLevels (d : Draft) (ws : List LevelWrite) (j : NodeId) :
    ((d.writeLevels ws).forest.tail j).toList =
      if LevelWrite.reach ws j then
        IndentParams.relevel (LevelWrite.last? ws j) (d.forest.tail j).toList
      else (d.forest.tail j).toList := by
  induction ws using List.reverseRecOn with
  | nil => rfl
  | append_singleton ws w ih =>
    have hstep : d.writeLevels (ws ++ [w]) = (d.writeLevels ws).writeLevel w :=
      writeLevels_append d ws [w]
    rw [hstep, tail_writeLevel, ih, LevelWrite.reach_concat, LevelWrite.last?_concat]
    by_cases hj : w.node = j
    · rw [if_pos hj, if_pos hj]
      cases hreach : LevelWrite.reach ws j with
      | true => simp [hj, IndentParams.relevel_relevel]
      | false => simp [hj, LevelWrite.last?_of_not_reach hreach]
    · simp [hj]

end Draft

/-! ## The writes of the walk -/

namespace IndentParams

variable (p : IndentParams) (f : Forest)

/-- The write that sets the level of the line after node `i`, which starts with node `next`. -/
def lineWrite (i : NodeId) (level : Nat) (next : Option NodeId) : LevelWrite :=
  ⟨i, if p.keepsLine f next then none else some level⟩

/-- The write after the last child of node `i`, if there is one. -/
def afterLastWrites (i : Option NodeId) (level : Nat) (next : NodeId) : List LevelWrite :=
  match i.bind f.lastChild? with
  | some last => [p.lineWrite f last level (some next)]
  | none => []

/-- The write before `child`, if it closes something. -/
def closeWrites (inside previous : Option NodeId) (level : Nat) (child : NodeId) :
    List LevelWrite :=
  match previous with
  | some i => if f.isCloser inside child then [p.lineWrite f i level (some child)] else []
  | none => []

/-- The write before the END SELECT that ends an arm. -/
def closeArmWrites (level : Nat) (arm : NodeId) : List LevelWrite :=
  match f.armEnd? arm with
  | some (before, last) => [p.lineWrite f before level (some last)]
  | none => []

mutual

/-- The writes below a shape entered at `level`, directly inside the construct `inside` if there is
one. -/
def writesBelow (level : Nat) (inside : Option NodeId) : Shape → List LevelWrite
  | .node i cs => writesFrom level inside (f.kind i == .construct .selectCase) level none cs

/-- The writes for the shapes `cs`, children of a container entered at `level`, when the level has
become `current` and the child before them is `previous`. -/
def writesFrom (level : Nat) (inside : Option NodeId) (inSelect : Bool) (current : Nat)
    (previous : Option NodeId) : List Shape → List LevelWrite
  | [] => []
  | s :: rest =>
    let child := s.id
    let current := p.levelAfter f inside current child
    let within :=
      if inSelect then
        p.afterLastWrites f previous (level + p.branch) child ++
          writesBelow (level + 2 * p.branch) none s ++ p.closeArmWrites f level child
      else if (f.kind child).isContainer then
        (if f.startsInterBranch child then p.afterLastWrites f previous level child else []) ++
          writesBelow current (innerConstruct f child) s
      else []
    [p.lineWrite f child current (rest.head?.map Shape.id)] ++ within ++
      p.closeWrites f inside previous level child ++
      writesFrom level inside inSelect current (some child) rest

end

/-! ## The walk makes its writes -/

variable {p f} {d : Draft}

theorem setLevel_eq (h : f.SameButTails d.forest) (i : NodeId) (level : Nat)
    (next : Option NodeId) :
    p.setLevel d i level next = d.writeLevels [p.lineWrite f i level next] := by
  obtain ⟨_, hr⟩ := h
  have hone : d.writeLevels [p.lineWrite f i level next] =
    d.writeLevel (p.lineWrite f i level next) := rfl
  rw [hone, setLevel, Draft.writeLevel, lineWrite, hr.keepsLine_eq]
  split <;> rfl

theorem setLevelAfterLast_eq (h : f.SameButTails d.forest) (i : Option NodeId) (level : Nat)
    (next : NodeId) :
    p.setLevelAfterLast d i level next = d.writeLevels (p.afterLastWrites f i level next) := by
  obtain ⟨_, hr⟩ := h
  have hlast : d.forest.lastChild? = f.lastChild? := by
    funext j
    rw [Forest.lastChild?, hr.children_eq, Forest.lastChild?]
  rw [setLevelAfterLast, afterLastWrites, hlast]
  cases i.bind f.lastChild? with
  | none => rfl
  | some last => exact setLevel_eq ⟨_, hr⟩ last level _

theorem closeAt_eq (h : f.SameButTails d.forest) (inside previous : Option NodeId) (level : Nat)
    (child : NodeId) :
    p.closeAt d inside previous level child =
      d.writeLevels (p.closeWrites f inside previous level child) := by
  obtain ⟨_, hr⟩ := h
  cases previous with
  | none => rfl
  | some i =>
    rw [closeAt, closeWrites, hr.isCloser_eq]
    split
    · exact setLevel_eq ⟨_, hr⟩ i level _
    · rfl

theorem closeArm_eq (h : f.SameButTails d.forest) (level : Nat) (arm : NodeId) :
    p.closeArm d level arm = d.writeLevels (p.closeArmWrites f level arm) := by
  obtain ⟨_, hr⟩ := h
  have harm : d.forest.armEnd? arm = f.armEnd? arm := by
    simp only [Forest.armEnd?, hr.children_eq, hr.kind_eq]
  rw [closeArm, closeArmWrites, harm]
  cases f.armEnd? arm with
  | none => rfl
  | some ends => exact setLevel_eq ⟨_, hr⟩ ends.1 level _

theorem levelAfter_eq (h : f.SameButTails d.forest) (inside : Option NodeId) (level : Nat)
    (child : NodeId) :
    p.levelAfter d.forest inside level child = p.levelAfter f inside level child := by
  obtain ⟨_, hr⟩ := h
  have hopens : (d.forest.opensBody · child) = (f.opensBody · child) := by
    funext c
    simp only [Forest.opensBody, Forest.isStatementOf, hr.kind_eq, hr.tag_eq]
  rw [levelAfter, levelAfter, hr.kind_eq, hopens]

theorem innerConstruct_eq (h : f.SameButTails d.forest) (child : NodeId) :
    innerConstruct d.forest child = innerConstruct f child := by
  obtain ⟨_, hr⟩ := h
  simp only [innerConstruct, hr.kind_eq]

/-- The walk below a shape makes the writes that are listed for it, whatever the tails. -/
def WritesBelow (p : IndentParams) (f : Forest) (s : Shape) : Prop :=
  ∀ (d : Draft) (level : Nat) (inside : Option NodeId), f.SameButTails d.forest →
    p.indentBelow level inside s d = d.writeLevels (p.writesBelow f level inside s)

/-- What is done to a shape between the write after it and a look at what it closes. -/
theorem within_eq {s : Shape} (hs : WritesBelow p f s) (h : f.SameButTails d.forest) (level : Nat)
    (inSelect : Bool) (current : Nat) (previous : Option NodeId) :
    (if inSelect then
        p.closeArm (p.indentBelow (level + 2 * p.branch) none s
          (p.setLevelAfterLast d previous (level + p.branch) s.id)) level s.id
      else if (d.forest.kind s.id).isContainer then
        p.indentBelow current
          (innerConstruct (if d.forest.startsInterBranch s.id then
            p.setLevelAfterLast d previous level s.id else d).forest s.id) s
          (if d.forest.startsInterBranch s.id then p.setLevelAfterLast d previous level s.id else d)
      else d) =
    d.writeLevels
      (if inSelect then
        p.afterLastWrites f previous (level + p.branch) s.id ++
          p.writesBelow f (level + 2 * p.branch) none s ++ p.closeArmWrites f level s.id
      else if (f.kind s.id).isContainer then
        (if f.startsInterBranch s.id then p.afterLastWrites f previous level s.id else []) ++
          p.writesBelow f current (innerConstruct f s.id) s
      else []) := by
  obtain ⟨js, hr⟩ := h
  have h : f.SameButTails d.forest := ⟨js, hr⟩
  rw [hr.kind_eq, hr.startsInterBranch_eq]
  cases inSelect with
  | true =>
    rw [if_pos rfl, if_pos rfl, setLevelAfterLast_eq h]
    have h₁ := h.writeLevels (p.afterLastWrites f previous (level + p.branch) s.id)
    rw [hs _ _ _ h₁, closeArm_eq (h₁.writeLevels _), Draft.writeLevels_append,
      Draft.writeLevels_append]
  | false =>
    rw [if_neg Bool.false_ne_true, if_neg Bool.false_ne_true]
    by_cases hk : (f.kind s.id).isContainer = true
    · rw [if_pos hk, if_pos hk]
      have hback :
          (if f.startsInterBranch s.id then p.setLevelAfterLast d previous level s.id else d) =
          d.writeLevels
            (if f.startsInterBranch s.id then p.afterLastWrites f previous level s.id else []) := by
        split
        · exact setLevelAfterLast_eq h previous level s.id
        · rfl
      have h₁ := h.writeLevels
        (if f.startsInterBranch s.id then p.afterLastWrites f previous level s.id else [])
      rw [hback, innerConstruct_eq h₁, hs _ _ _ h₁, Draft.writeLevels_append]
    · rw [if_neg hk, if_neg hk]
      rfl

theorem indentFrom_eq {cs : List Shape} (hcs : ∀ s ∈ cs, WritesBelow p f s) (level : Nat)
    (inside : Option NodeId) (inSelect : Bool) (current : Nat)
    (previous : Option NodeId) (d : Draft) (h : f.SameButTails d.forest) :
    p.indentFrom level inside inSelect current previous cs d =
      d.writeLevels (p.writesFrom f level inside inSelect current previous cs) := by
  induction cs generalizing current previous d with
  | nil => rw [indentFrom, writesFrom]; rfl
  | cons s rest ih =>
    obtain ⟨hs, hrest⟩ := List.forall_mem_cons.mp hcs
    rw [indentFrom, writesFrom]
    dsimp only
    rw [levelAfter_eq h, setLevel_eq h]
    have h₁ := h.writeLevels [p.lineWrite f s.id (p.levelAfter f inside current s.id)
      (rest.head?.map Shape.id)]
    rw [within_eq hs h₁, closeAt_eq (h₁.writeLevels _),
      ih hrest _ _ _ ((h₁.writeLevels _).writeLevels _)]
    simp only [Draft.writeLevels_append]

theorem indentBelow_eq (p : IndentParams) (f : Forest) (s : Shape) : WritesBelow p f s := by
  induction s using Shape.induct with
  | h i cs ih =>
    intro d level inside h
    obtain ⟨js, hr⟩ := h
    rw [indentBelow, writesBelow, hr.kind_eq]
    exact indentFrom_eq ih level inside _ level none d ⟨js, hr⟩

/-- The writes of re-indenting what is below node `i`, starting at level `base`. -/
def writes (p : IndentParams) (i : NodeId) (base : Nat) (f : Forest) : List LevelWrite :=
  p.writesBelow f base none (f.shape i)

end IndentParams

/-! ## Re-indenting -/

section Subtree

variable (p : IndentParams) (i : NodeId) (base : Nat) {f g : Forest}

/-- The writes of `f` serve every store that differs from it in tails only. -/
theorem indentSubtree_of_sameButTails (h : f.SameButTails g) :
    indentSubtree p i base g = Draft.writeLevels { forest := g } (p.writes i base f) := by
  have hshape : g.shape i = f.shape i := by
    obtain ⟨_, hr⟩ := h
    rw [Forest.shape, Forest.shape, hr.size_eq, Forest.shapeWithin_congr hr.children_eq]
  rw [indentSubtree, hshape]
  exact p.indentBelow_eq f (f.shape i) { forest := g } base none h

theorem indentSubtree_eq (f : Forest) :
    indentSubtree p i base f = Draft.writeLevels { forest := f } (p.writes i base f) :=
  indentSubtree_of_sameButTails p i base (.refl f)

theorem sameButTails_indentSubtree (f : Forest) :
    f.SameButTails (indentSubtree p i base f).forest := by
  rw [indentSubtree_eq]
  exact Forest.SameButTails.writeLevels (d := { forest := f }) (.refl f) _

/-- Re-indenting a second time leaves the store exactly as the first time left it, and all that the
first time changes is tails. -/
theorem indentSubtree_indentSubtree (p : IndentParams) (i : NodeId) (base : Nat) (f : Forest) :
    (indentSubtree p i base (indentSubtree p i base f).forest).forest =
      (indentSubtree p i base f).forest ∧
    (indentSubtree p i base f).forest.size = f.size ∧
    ∀ j, (indentSubtree p i base f).forest.tag j = f.tag j ∧
      (indentSubtree p i base f).forest.text j = f.text j ∧
      (indentSubtree p i base f).forest.children j = f.children j := by
  have honce := sameButTails_indentSubtree p i base f
  refine ⟨?_, ?_⟩
  · -- Both times the same writes are made, and a write made again changes nothing.
    have htwice := indentSubtree_of_sameButTails p i base honce
    refine (sameButTails_indentSubtree p i base _).eq_of_tail fun j => String.toList_inj.mp ?_
    rw [htwice, Draft.tail_writeLevels, indentSubtree_eq p i base f, Draft.tail_writeLevels]
    split
    · rw [IndentParams.relevel_relevel, Option.or_self]
    · rfl
  · obtain ⟨_, hr⟩ := honce
    exact ⟨hr.size_eq, fun j => ⟨hr.tag_eq j, hr.text_eq j, hr.children_eq j⟩⟩

end Subtree

end FortranLayout
