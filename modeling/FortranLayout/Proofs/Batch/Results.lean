import FortranLayout.Proofs.Batch.Places
import FortranLayout.Proofs.Batch.Schedule
import Mathlib.Data.List.Basic

/-!
# Results of a batch

Fortran source is put beside the file it comes from, under the same stem. Files of one stem, such as
`a.json` and `a.JSON`, therefore share the place of their results, and all but one of these are
lost. If the selected files have different stems, each sees its settings and its document as they
were found while others are written, and keeps its result, in every order and however the work is
interleaved.

* `Batch.Sound`: the invariant of files at work; `Batch.Sound.turn` is the step, `Batch.Sound.run`
  the run.
* `Arguments.results_of_batch`: when two files share a place, and what is left if none do.
* `Arguments.run_sameStem`: a text that is lost.
-/

namespace FortranLayout

/-! ## Settings

The settings for a file are found in files that are no results, so results that are written
meanwhile do not change them. -/

namespace Environment

variable {e : Environment} {u : FileTree} {path : Path}

theorem isName_fileName : FileTree.IsName Settings.fileName := by decide

/-- What is kept of a list is in the list. -/
theorem mem_of_mem_foldl {p : Path} {keeps : List Path → Path → Bool} {found rest : List Path}
    (h : p ∈ rest.foldl (fun found q => if keeps found q then found ++ [q] else found) found) :
    p ∈ found ∨ p ∈ rest := by
  induction rest generalizing found with
  | nil => exact Or.inl h
  | cons q rest ih =>
    rcases ih h with hfound | hrest
    · simp only at hfound
      split at hfound
      · rcases List.mem_append.mp hfound with hfound | hq
        · exact Or.inl hfound
        · rw [List.mem_singleton.mp hq]
          exact Or.inr List.mem_cons_self
      · exact Or.inl hfound
    · exact Or.inr (List.mem_cons_of_mem q hrest)

/-- A settings file has the name of settings files. -/
theorem exists_join_of_mem_settingsFiles {p : Path} (h : p ∈ e.settingsFiles path) :
    ∃ d : Path, p = d.join Settings.fileName := by
  rcases mem_of_mem_foldl h with hhome | hcandidate
  · obtain ⟨d, -, hd⟩ := List.mem_map.mp (List.mem_filter.mp hhome).1
    exact ⟨d, hd.symm⟩
  · obtain ⟨d, -, hd⟩ := List.mem_map.mp hcandidate
    exact ⟨d, hd.symm⟩

/-- The settings that are found for a path depend on the directories, on the settings files, and on
whether the path leads to a file. -/
theorem findSettings?_congr (hdirectory : u.isDirectory = e.tree.isDirectory)
    (hcontents : ∀ d : Place,
      u.contents? (d ++ [Settings.fileName]) = e.tree.contents? (d ++ [Settings.fileName]))
    (hfile : u.isFile e.here path = e.isFile path) :
    ({ e with tree := u } : Environment).findSettings? path = e.findSettings? path := by
  have hread : ∀ d : Path, ({ e with tree := u } : Environment).read? (d.join Settings.fileName) =
      e.read? (d.join Settings.fileName) :=
    FileTree.read?_join_congr hdirectory isName_fileName hcontents
  have hisFile : ∀ d : Path,
      ({ e with tree := u } : Environment).isFile (d.join Settings.fileName) =
      e.isFile (d.join Settings.fileName) :=
    fun d => congrArg Option.isSome (hread d)
  have hstart : ({ e with tree := u } : Environment).searchStart path = e.searchStart path := by
    have hfile' : ({ e with tree := u } : Environment).isFile path = e.isFile path := hfile
    have hdirectory' : ({ e with tree := u } : Environment).directory? path =
        e.directory? path := by
      simp only [directory?, FileTree.directory?, FileTree.resolve?_congr hdirectory, hdirectory]
    rw [searchStart, searchStart, hfile', hdirectory']
    rfl
  have hfiles : ({ e with tree := u } : Environment).settingsFiles path = e.settingsFiles path := by
    simp only [settingsFiles, candidates, hstart]
    rw [List.filter_congr (q := e.isFile)]
    · refine List.foldl_ext _ _ _ fun found p hp => ?_
      obtain ⟨d, -, rfl⟩ := List.mem_map.mp hp
      rw [hisFile]
    · intro p hp
      obtain ⟨d, -, rfl⟩ := List.mem_map.mp hp
      exact hisFile d
  rw [findSettings?, findSettings?, hfiles]
  refine congrArg Settings.ofTomls? (List.filterMap_congr fun p hp => ?_)
  obtain ⟨d, rfl⟩ := exists_join_of_mem_settingsFiles hp
  exact hread d

end Environment

/-- If no file with settings is named, the settings for a path are those that are found for it. -/
theorem Arguments.settings_congr {a : Arguments} {e : Environment} {u : FileTree} {path : Path}
    (hconfig : a.config = none)
    (h : ({ e with tree := u } : Environment).findSettings? path = e.findSettings? path) :
    a.settings { e with tree := u } path = a.settings e path := by
  rw [settings, settings, readSettings, readSettings, hconfig]
  simp only [h]

/-! ## What a file gets -/

section

variable (a : Arguments) (e : Environment) (common : Option Settings)

/-- The normalized text of a file as it is found, if there is one. -/
def Arguments.normalized? (path : Path) : Option String :=
  match a.settingsFor e common path with
  | .error _ => none
  | .ok s =>
    if sizeLimit < ((e.read? path).getD "").utf8ByteSize then none
    else (a.format s ((e.read? path).getD "")).toOption

/-- Whether a stage is one that the file, as it is found, goes through. -/
def Stage.Sound (path : Path) : Stage → Prop
  | waiting => True
  | planned s => a.settingsFor e common path = .ok s
  | ready text => a.normalized? e common path = some text
  | written text => a.normalized? e common path = some text ∧ (e.result? path).isSome
  | skipped => a.normalized? e common path = none
  | failed _ => a.normalized? e common path = none ∨ e.result? path = none

end

variable {a : Arguments} {e : Environment} {common : Option Settings} {t : FileTree} {path : Path}

namespace Stage

/-- A file that sees its settings and its document as they were found stays sound. -/
theorem Sound.advance {stage : Stage} (h : stage.Sound a e common path)
    (hemit : a.emit.getD .fortran = .fortran) (hdirectory : t.isDirectory = e.tree.isDirectory)
    (hsettings : ¬ stage.isSettled →
      a.settingsFor { e with tree := t } common path = a.settingsFor e common path)
    (hread : ¬ stage.isSettled → t.read? e.here path = e.read? path) :
    (stage.advance a e common t path).2.Sound a e common path := by
  cases stage with
  | waiting =>
    rw [Stage.advance, hsettings (by simp [isSettled])]
    cases hs : a.settingsFor e common path with
    | ok s => exact hs
    | error cause =>
      left
      simp [Arguments.normalized?, hs]
  | planned s =>
    have hnormalized : a.normalized? e common path =
        if sizeLimit < ((e.read? path).getD "").utf8ByteSize then none
        else (a.format s ((e.read? path).getD "")).toOption := by
      simp only [Arguments.normalized?]
      rw [show a.settingsFor e common path = .ok s from h]
    rw [Stage.advance, hread (by simp [isSettled])]
    split
    · rename_i hsize
      rw [if_pos hsize] at hnormalized
      exact hnormalized
    · rename_i hsize
      rw [if_neg hsize] at hnormalized
      cases hformat : a.format s ((e.read? path).getD "") with
      | ok text =>
        rw [hformat] at hnormalized
        exact hnormalized
      | error cause =>
        rw [hformat] at hnormalized
        exact Or.inl hnormalized
  | ready text =>
    rw [Stage.advance, hemit, Environment.write?_target hdirectory]
    cases hresult : e.result? path with
    | none => exact Or.inr hresult
    | some p => exact ⟨h, by simp [hresult]⟩
  | written text => exact h
  | skipped => exact h
  | failed cause => exact h

/-- A step changes no file, except that it writes a result. -/
theorem advance_cases (stage : Stage) (hemit : a.emit.getD .fortran = .fortran)
    (hdirectory : t.isDirectory = e.tree.isDirectory) :
    ((stage.advance a e common t path).1 = t ∧
        ∀ text, (stage.advance a e common t path).2 = .written text ↔ stage = .written text) ∨
      ∃ text p, stage = .ready text ∧ (stage.advance a e common t path).2 = .written text ∧
        e.result? path = some p ∧
        (stage.advance a e common t path).1 =
          { t with files := FileTree.setFile p text t.files } := by
  cases stage with
  | waiting =>
    left
    rw [advance]
    split <;> simp
  | planned s =>
    left
    rw [advance]
    split
    · simp
    · split <;> simp
  | ready text =>
    rw [advance, hemit, Environment.write?_target hdirectory]
    cases hresult : e.result? path with
    | none => simp
    | some p => exact Or.inr ⟨text, p, rfl, rfl, rfl, rfl⟩
  | written text => simp [advance]
  | skipped => simp [advance]
  | failed cause => simp [advance]

end Stage

/-! ## Files at work -/

/-- Different files have different stems, and a file that its own result replaces is selected once.
-/
structure Arguments.Apart (a : Arguments) (e : Environment) : Prop where
  stems : ∀ p ∈ a.files e, ∀ q ∈ a.files e,
    (e.file? p).map Place.stem = (e.file? q).map Place.stem → e.file? p = e.file? q
  once : (a.files e).Pairwise fun p q =>
    e.file? p = e.file? q → (e.file? p).map Place.source ≠ e.file? p

namespace Batch

variable {b : Batch}

/-- Results are put into directories, so no step adds one. -/
theorem isDirectory_turn (hemit : a.emit.getD .fortran = .fortran)
    (h : b.tree.isDirectory = e.tree.isDirectory) (i : Nat) :
    (b.turn a e common i).tree.isDirectory = e.tree.isDirectory := by
  rcases turn_cases b i with hturn | ⟨before, path, stage, after, -, hturn⟩
  · rw [hturn]
    exact h
  · rw [hturn]
    rcases Stage.advance_cases stage hemit h with ⟨htree, -⟩ | ⟨text, r, -, -, hr, htree⟩
    · rw [htree]
      exact h
    · rw [htree, Environment.isDirectory_setFile_result? hr h]
      exact h

theorem isDirectory_run (hemit : a.emit.getD .fortran = .fortran)
    (h : b.tree.isDirectory = e.tree.isDirectory) (schedule : List Nat) :
    (b.run a e common schedule).tree.isDirectory = e.tree.isDirectory := by
  induction schedule generalizing b with
  | nil => exact h
  | cons i schedule ih => exact ih (isDirectory_turn hemit h i)

/-- Whether a place holds a text that was written there or, if there is none, what it held at the
beginning. -/
def HoldsAt (e : Environment) (b : Batch) (p : Place) : Prop :=
  (∃ path text, (path, .written text) ∈ b.jobs ∧ e.result? path = some p ∧
    b.tree.contents? p = some text) ∨
    (∀ path text, (path, .written text) ∈ b.jobs → e.result? path ≠ some p) ∧
      b.tree.contents? p = e.tree.contents? p

/-- The places after a step that writes nothing. -/
theorem HoldsAt.keep {p : Place} (h : b.HoldsAt e p) {jobs : List (Path × Stage)}
    (hjobs : ∀ path text, (path, .written text) ∈ jobs ↔ (path, .written text) ∈ b.jobs) :
    HoldsAt e ⟨b.tree, jobs⟩ p := by
  simpa only [HoldsAt, hjobs] using h

/-- The places after a step that writes a result. -/
theorem HoldsAt.write {p r : Place} (h : b.HoldsAt e p) {text : String} {jobs : List (Path × Stage)}
    (hr : e.result? path = some r)
    (hjobs : ∀ other text', (other, .written text') ∈ jobs ↔
      (other = path ∧ text' = text) ∨ (other, .written text') ∈ b.jobs) :
    HoldsAt e ⟨{ b.tree with files := FileTree.setFile r text b.tree.files }, jobs⟩ p := by
  have hset :
      ({ b.tree with files := FileTree.setFile r text b.tree.files } : FileTree).contents? p =
      if p = r then some text else b.tree.contents? p :=
        FileTree.lookup_setFile r p text b.tree.files
  simp only [HoldsAt, hset, hjobs]
  by_cases hpr : p = r
  · subst hpr
    exact Or.inl ⟨path, text, Or.inl ⟨rfl, rfl⟩, hr, if_pos rfl⟩
  · rw [if_neg hpr]
    rcases h with ⟨other, text', hother, hresult, hheld⟩ | ⟨hnone, hheld⟩
    · exact Or.inl ⟨other, text', Or.inr hother, hresult, hheld⟩
    · refine Or.inr ⟨?_, hheld⟩
      rintro other text' (⟨rfl, rfl⟩ | hother) hresult
      · exact hpr (Option.some.inj (hresult.symm.trans hr))
      · exact hnone other text' hother hresult

/-- What is true of files at work. -/
structure Sound (a : Arguments) (e : Environment) (common : Option Settings)
    (b : Batch) : Prop where
  paths : b.jobs.map Prod.fst = a.files e
  directories : b.tree.isDirectory = e.tree.isDirectory
  contents : ∀ p, b.HoldsAt e p
  stages : ∀ job ∈ b.jobs, job.2.Sound a e common job.1

theorem sound_start : Sound a e common (start a e) where
  paths := by simp [start, Function.comp_def]
  directories := rfl
  contents p := Or.inr ⟨fun path text h => by simp [start] at h, rfl⟩
  stages job h := by
    obtain ⟨path, -, rfl⟩ := List.mem_map.mp h
    trivial

namespace Sound

variable {i : Nat} {stage : Stage}

theorem mem_files (h : Sound a e common b) (hjob : (path, stage) ∈ b.jobs) : path ∈ a.files e := by
  rw [← h.paths]
  exact List.mem_map_of_mem hjob

/-- A file that is not finished yet is not the result of another one. -/
theorem result?_ne (h : Sound a e common b) (ht : e.tree.WellFormed) (hapart : a.Apart e)
    (hi : b.jobs[i]? = some (path, stage)) (hstage : ¬ stage.isSettled) {p : Place}
    (hp : e.file? path = some p)
    {other : Path} {text : String} (hother : (other, .written text) ∈ b.jobs) :
    e.result? other ≠ some p := by
  intro hresult
  have hpath := h.mem_files (List.mem_of_getElem? hi)
  obtain ⟨q, hq⟩ := Arguments.exists_file?_of_mem_files ht (h.mem_files hother)
  -- The other path leads to the same file, which is therefore its own result.
  have hsame : e.file? path = e.file? other := by
    refine hapart.stems path hpath other (h.mem_files hother) ?_
    rw [hp, hq, Option.map_some, Option.map_some, Environment.stem_of_result? ht hq hresult]
  have hown : (e.file? path).map Place.source = e.file? path := by
    rw [hp, hq] at hsame
    rw [hp, Option.map_some, Option.some.inj hsame,
      ← Environment.eq_source_of_result? ht hq hresult, ← Option.some.inj hsame]
  -- Such a file is selected once, but this one is finished at one place and not at the other.
  obtain ⟨j, hj⟩ := List.mem_iff_getElem?.mp hother
  have hne : i ≠ j := by
    rintro rfl
    rw [hi] at hj
    cases hj
    exact hstage rfl
  have hi' : (a.files e)[i]? = some path := by rw [← h.paths, List.getElem?_map, hi]; rfl
  have hj' : (a.files e)[j]? = some other := by rw [← h.paths, List.getElem?_map, hj]; rfl
  obtain ⟨hilt, hi'⟩ := List.getElem?_eq_some_iff.mp hi'
  obtain ⟨hjlt, hj'⟩ := List.getElem?_eq_some_iff.mp hj'
  have honce := List.pairwise_iff_getElem.mp hapart.once
  rcases Nat.lt_or_gt_of_ne hne with hlt | hlt
  · have := honce i j hilt hjlt hlt
    rw [hi', hj'] at this
    exact this hsame hown
  · have := honce j i hjlt hilt hlt
    rw [hi', hj', ← hsame] at this
    exact this rfl hown

/-- A file that is not finished yet is read as it was found. -/
theorem read?_eq (h : Sound a e common b) (ht : e.tree.WellFormed) (hapart : a.Apart e)
    (hi : b.jobs[i]? = some (path, stage)) (hstage : ¬ stage.isSettled) :
    b.tree.read? e.here path = e.read? path := by
  obtain ⟨p, hp⟩ := Arguments.exists_file?_of_mem_files ht (h.mem_files (List.mem_of_getElem? hi))
  obtain ⟨hresolve, -⟩ := Option.filter_eq_some_iff.mp hp
  rw [FileTree.read?, Environment.read?, FileTree.read?,
    FileTree.resolve?_congr h.directories, hresolve]
  rcases h.contents p with ⟨other, text, hother, hresult, -⟩ | ⟨-, hsame⟩
  · exact absurd hresult (h.result?_ne ht hapart hi hstage hp hother)
  · exact hsame

/-- No result has the name of settings files. -/
theorem contents?_settings (h : Sound a e common b) (ht : e.tree.WellFormed) (d : Place) :
    b.tree.contents? (d ++ [Settings.fileName]) = e.tree.contents? (d ++ [Settings.fileName]) := by
  rcases h.contents (d ++ [Settings.fileName]) with ⟨other, text, hother, hresult, -⟩ | ⟨-, hsame⟩
  · obtain ⟨q, hq⟩ := Arguments.exists_file?_of_mem_files ht (h.mem_files hother)
    obtain ⟨-, hcontents⟩ := Option.filter_eq_some_iff.mp hq
    obtain ⟨-, d', n, rfl, -⟩ := ht.exists_concat hcontents
    have hname := Environment.eq_source_of_result? ht hq hresult
    rw [Place.source_concat, List.append_singleton_inj] at hname
    have hlast := congrArg (fun s => s.toList.getLast?) hname.2
    simp [Settings.fileName] at hlast
  · exact hsame

/-- The settings for a file that is not finished yet are those that were found at the beginning. -/
theorem settingsFor_eq (h : Sound a e common b) (ht : e.tree.WellFormed) (hapart : a.Apart e)
    (hcommon : a.common e = .ok common) (hi : b.jobs[i]? = some (path, stage))
    (hstage : ¬ stage.isSettled) :
    a.settingsFor { e with tree := b.tree } common path = a.settingsFor e common path := by
  cases common with
  | some s => rfl
  | none =>
    have hconfig : a.config = none := by
      cases hconfig : a.config with
      | none => rfl
      | some file =>
        simp only [Arguments.common, hconfig] at hcommon
        cases hsettings : a.settings e e.herePath <;> simp [hsettings, Except.map] at hcommon
    have hfile : b.tree.isFile e.here path = e.isFile path :=
      congrArg Option.isSome (h.read?_eq ht hapart hi hstage)
    exact Arguments.settings_congr hconfig
      (Environment.findSettings?_congr h.directories (h.contents?_settings ht) hfile)

/-- One of the files has come further, and its result may have been written. -/
theorem replace (h : Sound a e common b) {before after : List (Path × Stage)}
    {next : Stage} {u : FileTree}
    (hjobs : b.jobs = before ++ (path, stage) :: after) (hnext : next.Sound a e common path)
    (hdirectory : u.isDirectory = e.tree.isDirectory)
    (hcases : (u = b.tree ∧ ∀ text, next = .written text ↔ stage = .written text) ∨
      ∃ text r, stage = .ready text ∧ next = .written text ∧ e.result? path = some r ∧
        u = { b.tree with files := FileTree.setFile r text b.tree.files }) :
    Sound a e common ⟨u, before ++ (path, next) :: after⟩ := by
  have hpaths : (before ++ (path, next) :: after).map Prod.fst = a.files e := by
    rw [← h.paths, hjobs]
    simp
  have hstages : ∀ job ∈ before ++ (path, next) :: after, job.2.Sound a e common job.1 := by
    intro job hjob
    rcases List.mem_append.mp hjob with hbefore | hrest
    · exact h.stages job (hjobs ▸ List.mem_append_left _ hbefore)
    · rcases List.mem_cons.mp hrest with rfl | hafter
      · exact hnext
      · exact h.stages job (hjobs ▸ List.mem_append_right _ (List.mem_cons_of_mem _ hafter))
  rcases hcases with ⟨rfl, hwritten⟩ | ⟨text, r, rfl, rfl, hr, rfl⟩
  · refine ⟨hpaths, hdirectory, fun p => (h.contents p).keep fun other text => ?_, hstages⟩
    have hnext : Stage.written text = next ↔ Stage.written text = stage := by
      rw [eq_comm, hwritten, eq_comm]
    simp [hjobs, hnext]
  · refine ⟨hpaths, hdirectory, fun p => (h.contents p).write hr fun other text' => ?_, hstages⟩
    simp [hjobs, or_left_comm]

/-- A step for one of the files. -/
theorem turn (h : Sound a e common b) (ht : e.tree.WellFormed) (hapart : a.Apart e)
    (hemit : a.emit.getD .fortran = .fortran) (hcommon : a.common e = .ok common) (i : Nat) :
    Sound a e common (b.turn a e common i) := by
  have hdirectory : (b.turn a e common i).tree.isDirectory = e.tree.isDirectory :=
    isDirectory_turn hemit h.directories i
  rcases turn_cases b i with hturn | ⟨before, path, stage, after, hjobs, hturn⟩
  · rw [hturn]
    exact h
  · have hi : b.jobs[before.length]? = some (path, stage) := by simp [hjobs]
    rw [hturn] at hdirectory ⊢
    refine h.replace hjobs ?_ hdirectory (Stage.advance_cases stage hemit h.directories)
    exact (h.stages _ (List.mem_of_getElem? hi)).advance hemit h.directories
      (h.settingsFor_eq ht hapart hcommon hi) (h.read?_eq ht hapart hi)

/-- What a schedule leaves behind. -/
theorem run (h : Sound a e common b) (ht : e.tree.WellFormed) (hapart : a.Apart e)
    (hemit : a.emit.getD .fortran = .fortran) (hcommon : a.common e = .ok common)
    (schedule : List Nat) :
    Sound a e common (b.run a e common schedule) := by
  induction schedule generalizing b with
  | nil => exact h
  | cons i schedule ih => exact ih (h.turn ht hapart hemit hcommon i)

end Sound

/-- A result that was written is still there at the end, or one for the same file is. -/
theorem Sound.exists_held (h : Sound a e common b) (ht : e.tree.WellFormed)
    (hapart : a.Apart e) {text : String} (hjob : (path, .written text) ∈ b.jobs) :
    ∃ other ∈ a.files e, e.file? other = e.file? path ∧ ∃ held,
      a.normalized? e common other = some held ∧
      b.tree.read? e.here (Emit.fortran.target path) = some held := by
  obtain ⟨-, hwritable⟩ := h.stages _ hjob
  obtain ⟨r, hr⟩ := Option.isSome_iff_exists.mp hwritable
  rcases h.contents r with ⟨other, held, hother, hresult, hheld⟩ | ⟨hnone, -⟩
  · refine ⟨other, h.mem_files hother, ?_, held, (h.stages _ hother).1, ?_⟩
    · have hshared : e.result? other = e.result? path := hresult.trans hr.symm
      refine hapart.stems other (h.mem_files hother) path (h.mem_files hjob) ?_
      exact (Arguments.result?_eq_iff ht (h.mem_files hother) (h.mem_files hjob)
        (by simp [hresult]) hwritable).mp hshared
    · rw [Environment.read?_target h.directories hwritable, hr]
      exact hheld
  · exact absurd hr (hnone path text hjob)

end Batch

/-- The results of a batch in Fortran source, in every order and however the work on the files is
interleaved.

Two files have one place for their results, and so never two texts there, exactly if they have the
same stem. If no two files do, a file gets a result exactly if it can be normalized as it is found
and the result can be written, and at the end its normalized text is there (if several paths lead to
the file, that for one of them). A run of the command is among these schedules. -/
theorem Arguments.results_of_batch (a : Arguments) (e : Environment) (common : Option Settings)
    (ht : e.tree.WellFormed) (hstdout : a.has .stdout = false)
    (hemit : a.emit.getD .fortran = .fortran) (hcommon : a.common e = .ok common) :
    (∀ p ∈ a.files e, ∀ q ∈ a.files e, (e.result? p).isSome → (e.result? q).isSome →
      (e.result? p = e.result? q ↔ (e.file? p).map Place.stem = (e.file? q).map Place.stem) ∧
      ((e.file? p).map Place.stem = (e.file? q).map Place.stem → ∀ schedule : List Nat,
        let b := (Batch.start a e).run a e common schedule
        b.tree.read? e.here (Emit.fortran.target p) =
          b.tree.read? e.here (Emit.fortran.target q))) ∧
    (a.Apart e → ∀ schedule : List Nat,
      let b := (Batch.start a e).run a e common schedule
      b.Finished → ∀ path stage, (path, stage) ∈ b.jobs →
        (∀ text, stage = .written text ↔
          a.normalized? e common path = some text ∧ (e.result? path).isSome) ∧
        ∀ text, stage = .written text →
          ∃ other ∈ a.files e, e.file? other = e.file? path ∧ ∃ held,
            a.normalized? e common other = some held ∧
              b.tree.read? e.here (Emit.fortran.target path) = some held) ∧
    (a.readsInput = false → ∃ schedule : List Nat,
      let b := (Batch.start a e).run a e common schedule
      b.Finished ∧ (a.run e).tree = b.tree ∧
        ((a.run e).code = 0 ↔ ∀ job ∈ b.jobs, ¬ job.2.isFailed)) := by
  refine ⟨?_, ?_, fun hinput => exists_schedule hinput hstdout hcommon⟩
  · intro p hp q hq hpr hqr
    have hiff := result?_eq_iff ht hp hq hpr hqr
    refine ⟨hiff, ?_⟩
    intro hstem schedule b
    have hdirectory : b.tree.isDirectory = e.tree.isDirectory :=
      Batch.isDirectory_run hemit rfl schedule
    rw [Environment.read?_target hdirectory hpr, Environment.read?_target hdirectory hqr,
      hiff.mpr hstem]
  · intro hapart schedule b hfinished path stage hjob
    have hsound : Batch.Sound a e common b := Batch.sound_start.run ht hapart hemit hcommon schedule
    refine ⟨fun text => ?_, fun text htext => hsound.exists_held ht hapart (htext ▸ hjob)⟩
    have hstage := hsound.stages _ hjob
    have hsettled := hfinished _ hjob
    cases stage with
    | waiting => cases hsettled
    | planned s => cases hsettled
    | ready text' => cases hsettled
    | written text' =>
      obtain ⟨hnormalized, hresult⟩ := hstage
      simp [hnormalized, hresult]
    | skipped =>
      have hnone : a.normalized? e common path = none := hstage
      simp [hnone]
    | failed cause =>
      rcases hstage with hnone | hnone <;> simp [hnone]

/-- A directory with two files. -/
def twoFiles (first second : String) : Environment where
  tree.files :=
    [(["work", first], "\x7b\"tag\":\"file\",\"text\":\"X\"\x7d"),
      (["work", second], "\x7b\"tag\":\"file\",\"text\":\"Y\"\x7d")]
  here := ["work"]
  home := none

/-- Both files of a directory are at work at the same time, and the second is written first. -/
theorem Arguments.results_of_batch_twoStems :
    let a : Arguments := { inputs := ["."] }
    let e := twoFiles "a.json" "b.JSON"
    let b := (Batch.start a e).run a e none [0, 1, 1, 0, 1, 0]
    let path : Path := ⟨[".", "a.json"]⟩
    (path, .written "X") ∈ b.jobs ∧
      ∃ other ∈ a.files e, e.file? other = e.file? path ∧ ∃ held,
        a.normalized? e none other = some held ∧
        b.tree.read? e.here (Emit.fortran.target path) = some held := by
  intro a e b path
  have hjob : (path, .written "X") ∈ b.jobs := by decide +kernel
  have ht : e.tree.WellFormed := ⟨by decide +kernel, by decide +kernel⟩
  have hapart : a.Apart e := ⟨by decide +kernel, by decide +kernel⟩
  have hfinished : b.Finished := by decide +kernel
  exact ⟨hjob,
    ((a.results_of_batch e none ht rfl rfl rfl).2.1 hapart _ hfinished path _ hjob).2 "X" rfl⟩

/-- Two files with the same stem are selected by the extensions of trees. The run tells of no
failure, but the text of the first file is nowhere. -/
theorem Arguments.run_sameStem :
    let a : Arguments := { inputs := ["a.json", "a.JSON"] }
    let e := twoFiles "a.json" "a.JSON"
    a.files e = [⟨["a.json"]⟩, ⟨["a.JSON"]⟩] ∧ e.file? ⟨["a.json"]⟩ ≠ e.file? ⟨["a.JSON"]⟩ ∧
      e.result? ⟨["a.json"]⟩ = some ["work", "a.F90"] ∧
      e.result? ⟨["a.JSON"]⟩ = some ["work", "a.F90"] ∧
      a.normalized? e none ⟨["a.json"]⟩ = some "X" ∧
      Note.finished 2 0 ∈ (a.run e).notes ∧ ∀ file ∈ (a.run e).tree.files, file.2 ≠ "X" := by
  decide +kernel

end FortranLayout
