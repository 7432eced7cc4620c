import FortranLayout.Run

/-!
# Files at work at the same time

A run works on several files at a time. For each of them the settings are found, the document is
read and normalized, and the result is written; between these steps the others may take theirs. A
schedule says whose turn it is, step by step, so a statement about all schedules is one about all
orders and all ways to interleave.

* `Stage.advance`: the next step for a file, on the files as they are then.
* `Batch.run`: what is left after a schedule.
* `Arguments.exists_schedule`: a run of the command is one of the schedules, in which each file is
  finished before the next is begun.
-/

namespace FortranLayout

/-! ## Stages -/

/-- How far a file has come. -/
inductive Stage where
  | waiting
  /-- Its settings are known. -/
  | planned (s : Settings)
  /-- Its result is known, but not written yet. -/
  | ready (text : String)
  | written (text : String)
  /-- It is too large. -/
  | skipped
  | failed (cause : Failure)
deriving DecidableEq, Repr

/-- Whether nothing more is done for a file. -/
def Stage.isSettled : Stage → Bool
  | written _ | skipped | failed _ => true
  | _ => false

/-- Whether a file could not be normalized. -/
def Stage.isFailed : Stage → Bool
  | failed _ => true
  | _ => false

namespace Arguments

/-- The settings for a file: the common ones or, if there are none, those found for it. -/
def settingsFor (a : Arguments) (e : Environment) (common : Option Settings) (path : Path) :
    Except Failure Settings :=
  match common with
  | some s => .ok s
  | none => a.settings e path

/-- The settings that are common to all files, if a file with settings is named. -/
def common (a : Arguments) (e : Environment) : Except Failure (Option Settings) :=
  if a.config.isSome then (a.settings e e.herePath).map some else .ok none

end Arguments

section

variable (a : Arguments) (e : Environment) (common : Option Settings)

/-- The files after the next step for one of them, and how far that one has come. -/
def Stage.advance (t : FileTree) (path : Path) : Stage → FileTree × Stage
  | waiting =>
    match a.settingsFor { e with tree := t } common path with
    | .ok s => (t, planned s)
    | .error cause => (t, failed cause)
  | planned s =>
    let document := (t.read? e.here path).getD ""
    if sizeLimit < document.utf8ByteSize then (t, skipped)
    else match a.format s document with
      | .ok text => (t, ready text)
      | .error cause => (t, failed cause)
  | ready text =>
    match t.write? e.here ((a.emit.getD .fortran).target path) text with
    | some u => (u, written text)
    | none => (t, failed .unwritable)
  | settled => (t, settled)

/-- Files at work, and the files as they are. -/
structure Batch where
  tree : FileTree
  jobs : List (Path × Stage)
deriving DecidableEq, Repr

namespace Batch

/-- The selected files before the first step. -/
def start : Batch where
  tree := e.tree
  jobs := (a.files e).map (·, .waiting)

/-- The next step for the file with the given number. -/
def turn (b : Batch) (i : Nat) : Batch :=
  match b.jobs[i]? with
  | none => b
  | some (path, stage) =>
    { tree := (stage.advance a e common b.tree path).1
      jobs := b.jobs.set i (path, (stage.advance a e common b.tree path).2) }

/-- The steps of a schedule. -/
def run (b : Batch) (schedule : List Nat) : Batch := schedule.foldl (turn a e common) b

/-- Whether nothing more is done. -/
def Finished (b : Batch) : Prop := ∀ job ∈ b.jobs, job.2.isSettled

instance (b : Batch) : Decidable b.Finished :=
  inferInstanceAs (Decidable (∀ job ∈ b.jobs, job.2.isSettled))

end Batch

end

/-! ## One file after the other -/

section

variable {a : Arguments} {e : Environment} {common : Option Settings}

namespace Progress

@[simp] theorem tree_note (g : Progress) (notes : List Note) : (g.note notes).tree = g.tree := rfl

@[simp] theorem failures_note (g : Progress) (notes : List Note) :
    (g.note notes).failures = g.failures := rfl

@[simp] theorem tree_fail (g : Progress) (path : Path) (cause : Failure) :
    (g.fail path cause).tree = g.tree := rfl

@[simp] theorem failures_fail (g : Progress) (path : Path) (cause : Failure) :
    (g.fail path cause).failures = g.failures + 1 := rfl

@[simp] theorem tree_skip (g : Progress) (path : Path) (size : Nat) :
    (g.skip a path size).tree = g.tree := rfl

@[simp] theorem failures_skip (g : Progress) (path : Path) (size : Nat) :
    (g.skip a path size).failures = g.failures := rfl

/-- With the settings for a file at hand, a run does the same whether they are common or not. -/
theorem step_eq (g : Progress) (path : Path) :
    g.step a e common path =
      match a.settingsFor { e with tree := g.tree } common path with
      | .ok s => g.normalizeFile a e.here path s
      | .error cause => g.fail path cause := by
  cases common <;> rfl

end Progress

namespace Batch

theorem turn_at (t : FileTree) (before after : List (Path × Stage)) (path : Path) (stage : Stage) :
    turn a e common ⟨t, before ++ (path, stage) :: after⟩ before.length =
      ⟨(stage.advance a e common t path).1,
        before ++ (path, (stage.advance a e common t path).2) :: after⟩ := by
  simp [turn]

/-- A turn leaves all files alone, or is a step for one of them. -/
theorem turn_cases (b : Batch) (i : Nat) :
    b.turn a e common i = b ∨
      ∃ before path stage after, b.jobs = before ++ (path, stage) :: after ∧
        b.turn a e common i =
          ⟨(stage.advance a e common b.tree path).1,
            before ++ (path, (stage.advance a e common b.tree path).2) :: after⟩ := by
  cases hi : b.jobs[i]? with
  | none => exact Or.inl (by simp [turn, hi])
  | some job =>
    obtain ⟨hlt, hjob⟩ := List.getElem?_eq_some_iff.mp hi
    have hjobs : b.jobs = b.jobs.take i ++ job :: b.jobs.drop (i + 1) := by
      rw [← hjob, ← List.drop_eq_getElem_cons, List.take_append_drop]
    have hturn : turn a e common ⟨b.tree, b.jobs.take i ++ job :: b.jobs.drop (i + 1)⟩
        (b.jobs.take i).length = _ :=
      turn_at b.tree (b.jobs.take i) (b.jobs.drop (i + 1)) job.1 job.2
    rw [List.length_take, Nat.min_eq_left (Nat.le_of_lt hlt), ← hjobs] at hturn
    exact Or.inr ⟨_, _, _, _, hjobs, hturn⟩

theorem run_append (b : Batch) (first second : List Nat) :
    b.run a e common (first ++ second) = (b.run a e common first).run a e common second :=
  List.foldl_append

/-- Three steps are enough for a file. They leave behind what a run leaves that goes on to it. -/
theorem exists_settled (hstdout : a.has .stdout = false) (g : Progress) (path : Path)
    (before after : List (Path × Stage)) :
    ∃ stage : Stage, stage.isSettled ∧
      run a e common ⟨g.tree, before ++ (path, .waiting) :: after⟩
        (List.replicate 3 before.length) =
        ⟨(g.step a e common path).tree, before ++ (path, stage) :: after⟩ ∧
      (g.step a e common path).failures = g.failures + if stage.isFailed then 1 else 0 := by
  rw [Progress.step_eq]
  -- The steps of the file take the same branches as the run.
  cases hsettings : a.settingsFor { e with tree := g.tree } common path with
  | error cause =>
    exact ⟨.failed cause,
      rfl, by simp [run, turn_at, Stage.advance, hsettings], by simp [Stage.isFailed]⟩
  | ok s =>
    simp only [Progress.normalizeFile]
    by_cases hsize : sizeLimit < ((g.tree.read? e.here path).getD "").utf8ByteSize
    · exact ⟨.skipped, rfl, by simp [run, turn_at, Stage.advance, hsettings, hsize],
        by simp [hsize, Stage.isFailed]⟩
    cases hformat : a.format s ((g.tree.read? e.here path).getD "") with
    | error cause =>
      exact ⟨.failed cause, rfl,
        by simp [run, turn_at, Stage.advance, hsettings, hsize, hformat, hstdout],
        by simp [hsize, hstdout, Stage.isFailed]⟩
    | ok text =>
      simp only [Progress.deliver]
      cases hwrite : g.tree.write? e.here ((a.emit.getD .fortran).target path) text with
      | none =>
        exact ⟨.failed .unwritable, rfl,
          by simp [run, turn_at, Stage.advance, hsettings, hsize, hformat, hwrite, hstdout],
          by simp [hsize, hwrite, hstdout, Stage.isFailed]⟩
      | some u =>
        exact ⟨.written text, rfl,
          by simp [run, turn_at, Stage.advance, hsettings, hsize, hformat, hwrite, hstdout],
          by simp [hsize, hwrite, hstdout, Stage.isFailed]⟩

/-- Files that are gone through one after the other. -/
theorem exists_run_foldl (hstdout : a.has .stdout = false) (files : List Path) (g : Progress)
    (before : List (Path × Stage)) :
    ∃ schedule jobs, (∀ job ∈ jobs, job.2.isSettled) ∧
      run a e common ⟨g.tree, before ++ files.map (·, .waiting)⟩ schedule =
        ⟨(files.foldl (Progress.step a e common) g).tree, before ++ jobs⟩ ∧
      (files.foldl (Progress.step a e common) g).failures =
        g.failures + jobs.countP (·.2.isFailed) := by
  induction files generalizing g before with
  | nil => exact ⟨[], [], by simp, rfl, rfl⟩
  | cons path files ih =>
    obtain ⟨stage, hstage, hrun, hfailures⟩ :=
      exists_settled hstdout g path before (files.map (·, .waiting))
    obtain ⟨schedule, jobs, hjobs, hrest, hmore⟩ :=
      ih (g.step a e common path) (before ++ [(path, stage)])
    refine ⟨List.replicate 3 before.length ++ schedule, (path, stage) :: jobs,
      List.forall_mem_cons.mpr ⟨hstage, hjobs⟩, ?_, ?_⟩
    · rw [run_append, List.map_cons, hrun]
      simpa using hrest
    · rw [List.foldl_cons, hmore, hfailures, List.countP_cons, Nat.add_assoc,
        Nat.add_comm (jobs.countP _)]

end Batch

namespace Arguments

theorem run_of_common (hinput : a.readsInput = false) (hcommon : a.common e = .ok common) :
    a.run e = a.runFiles e common := by
  rw [Arguments.common] at hcommon
  rw [run, hinput, Bool.false_or]
  split at hcommon
  · rename_i hconfig
    rw [if_pos hconfig]
    cases hsettings : a.settings e e.herePath with
    | error cause =>
      rw [hsettings] at hcommon
      cases hcommon
    | ok s =>
      rw [hsettings] at hcommon
      cases hcommon
      rfl
  · rename_i hconfig
    rw [if_neg hconfig]
    cases hcommon
    rfl

/-- A run over files leaves behind what going through them leaves. -/
theorem runFiles_eq (a : Arguments) (e : Environment) (common : Option Settings) :
    (a.runFiles e common).tree =
        ((a.files e).foldl (Progress.step a e common) { tree := e.tree }).tree ∧
      ((a.runFiles e common).code = 0 ↔
        ((a.files e).foldl (Progress.step a e common) { tree := e.tree }).failures = 0) := by
  rw [runFiles]
  split
  · rename_i hfiles
    simp [hfiles]
  · simp [Progress.outcome]

/-- A run of the command is one of the schedules, and it fails if one of the files does. -/
theorem exists_schedule (hinput : a.readsInput = false) (hstdout : a.has .stdout = false)
    (hcommon : a.common e = .ok common) :
    ∃ schedule, ((Batch.start a e).run a e common schedule).Finished ∧
      (a.run e).tree = ((Batch.start a e).run a e common schedule).tree ∧
      ((a.run e).code = 0 ↔
        ∀ job ∈ ((Batch.start a e).run a e common schedule).jobs, ¬ job.2.isFailed) := by
  obtain ⟨schedule, jobs, hjobs, hrun, hfailures⟩ :=
    Batch.exists_run_foldl hstdout (a.files e) { tree := e.tree } []
  obtain ⟨htree, hcode⟩ := runFiles_eq a e common
  have hstart : (Batch.start a e).run a e common schedule =
      ⟨((a.files e).foldl (Progress.step a e common) { tree := e.tree }).tree, jobs⟩ := hrun
  refine ⟨schedule, ?_, ?_, ?_⟩
  · rw [hstart]
    exact hjobs
  · rw [run_of_common hinput hcommon, hstart, htree]
  · rw [run_of_common hinput hcommon, hstart, hcode, hfailures]
    simp [List.countP_eq_zero]

end Arguments

end

end FortranLayout
