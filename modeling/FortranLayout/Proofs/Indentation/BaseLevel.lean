import FortranLayout.Proofs.Indentation.Writes

/-!
# Re-indenting at another base level

All levels of a walk are reckoned from the level at which it starts: what is added to it depends on
the nodes alone. So at a base level that is greater by `k` the walk makes the same writes with all
levels greater by `k` (`IndentParams.writes_add`), and every line that gets a level at all stands
`k` blanks further to the right (`indentSubtree_add`).
-/

namespace FortranLayout

/-! ## Lines moved to the right -/

namespace Text

/-- A text with `k` more blanks after each of its newlines. -/
def moveLines (k : Nat) (s : List Char) : List Char :=
  s.flatMap fun c => if c = '\n' then '\n' :: blanks k else [c]

variable {k : Nat}

theorem moveLines_cons (k : Nat) (c : Char) (s : List Char) :
    moveLines k (c :: s) = (if c = '\n' then '\n' :: blanks k else [c]) ++ moveLines k s := rfl

theorem moveLines_append (k : Nat) (s t : List Char) :
    moveLines k (s ++ t) = moveLines k s ++ moveLines k t := List.flatMap_append

theorem moveLines_blanks (k n : Nat) : moveLines k (blanks n) = blanks n := by
  induction n with
  | zero => rfl
  | succ n ih =>
    rw [blanks, List.replicate_succ, ← blanks, moveLines_cons, ih]
    rfl

/-- Lines started at a greater column are those started at the smaller one, moved to the right. -/
theorem Pattern.everywhere_after_newline_add (n k : Nat) (s : List Char) :
    (Gaps.after '\n' (n + k)).everywhere s = moveLines k ((Gaps.after '\n' n).everywhere s) := by
  induction s using lines_induct with
  | nil => rfl
  | line s ih =>
    have hblanks : blanks (n + k) = blanks k ++ blanks n := by
      rw [blanks, blanks, blanks, List.replicate_append_replicate, Nat.add_comm]
    rw [everywhere_after_newline, everywhere_after_newline, ih, List.cons_append, List.cons_append,
      moveLines_cons, moveLines_append, moveLines_blanks, if_pos rfl, hblanks, List.append_assoc]
    rfl
  | cons c s hc ih =>
    rw [everywhere_after_newline_of_ne hc, everywhere_after_newline_of_ne hc, ih,
      moveLines_cons, if_neg hc]
    rfl

end Text

/-! ## Writes with greater levels -/

namespace LevelWrite

/-- The same write with a level that is greater by `k`. -/
def deepen (k : Nat) (w : LevelWrite) : LevelWrite := { w with level := w.level.map (· + k) }

/-- Whether a level is written to the tail of a node. -/
def relevels (ws : List LevelWrite) (j : NodeId) : Bool :=
  ws.any fun w => w.node == j && w.level.isSome

variable {ws : List LevelWrite} {j : NodeId} {k : Nat}

theorem isSome_last? : (last? ws j).isSome = relevels ws j := by
  induction ws using List.reverseRecOn with
  | nil => rfl
  | append_singleton ws w ih =>
    have hconcat : relevels (ws ++ [w]) j = (relevels ws j || (w.node == j && w.level.isSome)) := by
      simp [relevels]
    rw [last?_concat, hconcat, ← ih]
    by_cases hj : w.node = j
    · rw [if_pos hj, beq_iff_eq.mpr hj]
      cases w.level <;> simp
    · rw [if_neg hj, beq_eq_false_iff_ne.mpr hj]
      simp

theorem reach_map_deepen : reach (ws.map (deepen k)) j = reach ws j := by
  rw [reach, List.any_map]
  rfl

theorem relevels_map_deepen : relevels (ws.map (deepen k)) j = relevels ws j := by
  have hsome (w : LevelWrite) : (deepen k w).level.isSome = w.level.isSome := Option.isSome_map
  rw [relevels, List.any_map, relevels]
  congr 1
  funext w
  exact congrArg ((w.node == j) && ·) (hsome w)

theorem last?_map_deepen : last? (ws.map (deepen k)) j = (last? ws j).map (· + k) := by
  induction ws using List.reverseRecOn with
  | nil => rfl
  | append_singleton ws w ih =>
    have hnode : (deepen k w).node = w.node := rfl
    have hlevel : (deepen k w).level = w.level.map (· + k) := rfl
    rw [List.map_append, List.map_singleton, last?_concat, last?_concat, ih, hnode, hlevel]
    split
    · cases w.level <;> rfl
    · rfl

end LevelWrite

namespace IndentParams

open LevelWrite (deepen)

variable (p : IndentParams) (f : Forest) (k : Nat)

theorem levelAfter_add (inside : Option NodeId) (level : Nat) (child : NodeId) :
    p.levelAfter f inside (level + k) child = p.levelAfter f inside level child + k := by
  rw [levelAfter, levelAfter]
  split
  · exact Nat.add_right_comm level k p.programUnit
  · split
    · exact Nat.add_right_comm level k p.branch
    · rfl

theorem lineWrite_add (i : NodeId) (level : Nat) (next : Option NodeId) :
    p.lineWrite f i (level + k) next = deepen k (p.lineWrite f i level next) := by
  rw [lineWrite, lineWrite, deepen]
  split <;> rfl

theorem afterLastWrites_add (i : Option NodeId) (level : Nat) (next : NodeId) :
    p.afterLastWrites f i (level + k) next = (p.afterLastWrites f i level next).map (deepen k) := by
  rw [afterLastWrites, afterLastWrites]
  cases i.bind f.lastChild? with
  | none => rfl
  | some last => exact congrArg ([·]) (p.lineWrite_add f k last level _)

theorem closeWrites_add (inside previous : Option NodeId) (level : Nat) (child : NodeId) :
    p.closeWrites f inside previous (level + k) child =
      (p.closeWrites f inside previous level child).map (deepen k) := by
  cases previous with
  | none => rfl
  | some i =>
    rw [closeWrites, closeWrites]
    split
    · exact congrArg ([·]) (p.lineWrite_add f k i level _)
    · rfl

theorem closeArmWrites_add (level : Nat) (arm : NodeId) :
    p.closeArmWrites f (level + k) arm = (p.closeArmWrites f level arm).map (deepen k) := by
  rw [closeArmWrites, closeArmWrites]
  cases f.armEnd? arm with
  | none => rfl
  | some ends => exact congrArg ([·]) (p.lineWrite_add f k ends.1 level _)

theorem writesFrom_add {cs : List Shape}
    (hcs : ∀ s ∈ cs, ∀ level inside,
      p.writesBelow f (level + k) inside s = (p.writesBelow f level inside s).map (deepen k))
    (level : Nat) (inside : Option NodeId) (inSelect : Bool) (current : Nat)
    (previous : Option NodeId) :
    p.writesFrom f (level + k) inside inSelect (current + k) previous cs =
      (p.writesFrom f level inside inSelect current previous cs).map (deepen k) := by
  induction cs generalizing current previous with
  | nil =>
    rw [writesFrom, writesFrom]
    rfl
  | cons s rest ih =>
    obtain ⟨hs, hrest⟩ := List.forall_mem_cons.mp hcs
    have hwithin :
        (if inSelect then
          p.afterLastWrites f previous (level + k + p.branch) s.id ++
            p.writesBelow f (level + k + 2 * p.branch) none s ++ p.closeArmWrites f (level + k) s.id
        else if (f.kind s.id).isContainer then
          (if f.startsInterBranch s.id then p.afterLastWrites f previous (level + k) s.id
            else []) ++
            p.writesBelow f (p.levelAfter f inside current s.id + k) (innerConstruct f s.id) s
        else []) =
        (if inSelect then
          p.afterLastWrites f previous (level + p.branch) s.id ++
            p.writesBelow f (level + 2 * p.branch) none s ++ p.closeArmWrites f level s.id
        else if (f.kind s.id).isContainer then
          (if f.startsInterBranch s.id then p.afterLastWrites f previous level s.id else []) ++
            p.writesBelow f (p.levelAfter f inside current s.id) (innerConstruct f s.id) s
        else []).map (deepen k) := by
      rw [Nat.add_right_comm level k p.branch, Nat.add_right_comm level k (2 * p.branch)]
      simp only [afterLastWrites_add, closeArmWrites_add, hs]
      split
      · simp only [List.map_append]
      · split
        · split <;> simp only [List.map_append, List.map_nil]
        · rfl
    rw [writesFrom, writesFrom, levelAfter_add, hwithin, lineWrite_add, closeWrites_add, ih hrest]
    simp only [List.map_append, List.map_cons, List.map_nil]

theorem writesBelow_add (s : Shape) (level : Nat) (inside : Option NodeId) :
    p.writesBelow f (level + k) inside s = (p.writesBelow f level inside s).map (deepen k) := by
  induction s using Shape.induct generalizing level inside with
  | h i cs ih =>
    rw [writesBelow, writesBelow]
    exact p.writesFrom_add f k ih level inside _ level none

theorem writes_add (i : NodeId) (base : Nat) :
    p.writes i (base + k) f = (p.writes i base f).map (deepen k) :=
  p.writesBelow_add f k (f.shape i) base none

/-- Which tails get a level does not depend on the base level. -/
theorem relevels_writes (i : NodeId) (base base' : Nat) :
    LevelWrite.relevels (p.writes i base' f) = LevelWrite.relevels (p.writes i base f) := by
  have hzero (b : Nat) : LevelWrite.relevels (p.writes i b f) =
      LevelWrite.relevels (p.writes i 0 f) := by
    funext j
    rw [← Nat.zero_add b, writes_add, LevelWrite.relevels_map_deepen]
  rw [hzero base', hzero base]

/-- A write with a greater level leaves the lines moved to the right, a write without one what it
left before. -/
theorem relevel_map_add (level : Option Nat) (s : List Char) :
    relevel (level.map (· + k)) s =
      if level.isSome then Text.moveLines k (relevel level s) else relevel level s := by
  cases level with
  | none => rfl
  | some n => exact Text.Pattern.everywhere_after_newline_add n k _

end IndentParams

/-! ## Two base levels -/

/-- `g` is `f` with `k` more blanks after each newline of the tails for which `moved` holds. -/
structure Forest.Deepened (f g : Forest) (moved : NodeId → Bool) (k : Nat) : Prop where
  size_eq : g.size = f.size
  tag_eq : ∀ j, g.tag j = f.tag j
  text_eq : ∀ j, g.text j = f.text j
  children_eq : ∀ j, g.children j = f.children j
  tail_eq : ∀ j, (g.tail j).toList = if moved j then Text.moveLines k (f.tail j).toList
    else (f.tail j).toList

/-- Re-indenting from a base level that is greater by `k` gives the same tree, but for `k` more
blanks after each newline of the tails to which a level is written; the base has no part in which
tails those are. -/
theorem indentSubtree_add (p : IndentParams) (i : NodeId) (base k : Nat) (f : Forest) :
    (indentSubtree p i base f).forest.Deepened (indentSubtree p i (base + k) f).forest
        (LevelWrite.relevels (p.writes i base f)) k ∧
      ∀ b, indentSubtree p i b f = Draft.writeLevels { forest := f } (p.writes i b f) ∧
        LevelWrite.relevels (p.writes i b f) = LevelWrite.relevels (p.writes i base f) := by
  refine ⟨?_, fun b => ⟨indentSubtree_eq p i b f, p.relevels_writes f i base b⟩⟩
  obtain ⟨_, hr⟩ := sameButTails_indentSubtree p i base f
  obtain ⟨_, hr'⟩ := sameButTails_indentSubtree p i (base + k) f
  refine ⟨?_, fun j => ?_, fun j => ?_, fun j => ?_, fun j => ?_⟩
  · rw [hr'.size_eq, hr.size_eq]
  · rw [hr'.tag_eq, hr.tag_eq]
  · rw [hr'.text_eq, hr.text_eq]
  · rw [hr'.children_eq, hr.children_eq]
  · rw [indentSubtree_eq, indentSubtree_eq, Draft.tail_writeLevels, Draft.tail_writeLevels,
      p.writes_add, LevelWrite.reach_map_deepen, LevelWrite.last?_map_deepen,
      IndentParams.relevel_map_add, LevelWrite.isSome_last?]
    cases hreach : LevelWrite.reach (p.writes i base f) j with
    | true => rfl
    | false =>
      have hnone : LevelWrite.relevels (p.writes i base f) j = false := by
        rw [← LevelWrite.isSome_last?, LevelWrite.last?_of_not_reach hreach]
        rfl
      rw [hnone]
      rfl

end FortranLayout
