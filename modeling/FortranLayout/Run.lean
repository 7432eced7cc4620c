import FortranLayout.CommandLine.Parser
import FortranLayout.InPlace
import FortranLayout.Selection

/-!
# A run of the command

A run reads its arguments, then either normalizes what is given on standard input or goes through
the selected files one after the other. A file that cannot be normalized does not stop the run.
-/

namespace FortranLayout

/-- The greatest size of a document, in bytes. -/
def sizeLimit : Nat := 100 * 1024 * 1024

/-- A size in megabytes. -/
def megabytes (size : Nat) : String := Nat.repr (size / (1024 * 1024)) ++ " MB"

/-- Why something is not normalized. -/
inductive Failure where
  /-- The settings file that was named cannot be read. -/
  | noSettings
  /-- The settings have a wrong form. -/
  | invalidSettings
  /-- The settings contradict each other. -/
  | refused (fault : Fault)
  /-- What was read is not the document of a tree. -/
  | noTree
  /-- The result cannot be written. -/
  | unwritable
  /-- What is given on standard input is too large. -/
  | tooLarge
deriving DecidableEq, Repr

/-- The failure in words. -/
def Failure.message : Failure → String
  | noSettings => "the settings file cannot be read"
  | invalidSettings => "invalid settings"
  | refused fault => fault.message
  | noTree => "not the document of a tree"
  | unwritable => "the result cannot be written"
  | tooLarge => "stdin input too large (exceeds limit of " ++ megabytes sizeLimit ++ ")"

/-- What the user is told. -/
inductive Note where
  | started (path : Path)
  | skipped (path : Path) (size : Nat)
  | failed (path : Path) (cause : Failure)
  | finished (successes failures : Nat)
  | finishedInput
  | nothingFound
  | stopped (cause : Failure)
  | incomplete (failures : Nat)
  | usage (fault : UsageFault)
deriving DecidableEq, Repr

/-- The line that is shown for a note. -/
def Note.line : Note → String
  | started path => "Normalizing: " ++ path.text
  | skipped path size =>
    "Skipping " ++ path.text ++ " (" ++ megabytes size ++ " exceeds limit of " ++
      megabytes sizeLimit ++ ")"
  | failed path cause => "Error normalizing " ++ path.text ++ ": " ++ cause.message
  | finished successes 0 => "Normalized " ++ Nat.repr successes ++ " files successfully."
  | finished successes failures =>
    "Normalized " ++ Nat.repr successes ++ " files, " ++ Nat.repr failures ++ " errors."
  | finishedInput => "Normalized stdin successfully."
  | nothingFound => "No CST files found to normalize."
  | stopped cause => "Error: " ++ cause.message
  | incomplete failures => "Error: " ++ Nat.repr failures ++ " file(s) could not be normalized"
  | usage fault => "error: " ++ fault.message

/-- What a run leaves behind. -/
structure Outcome where
  /-- The exit status: 0, or 1 after a failure, or 2 if the arguments are refused. -/
  code : Nat := 0
  output : String := ""
  notes : List Note := []
  tree : FileTree
deriving DecidableEq, Repr

/-! ## Settings of a run -/

namespace Arguments

/-- The settings before the arguments are laid over them: those of the file that is named or, if
none is, those found for a path. -/
def readSettings (a : Arguments) (e : Environment) (path : Path) : Except Failure Settings :=
  match a.config with
  | none =>
    match e.findSettings? path with
    | some s => .ok s
    | none => .error .invalidSettings
  | some file =>
    match e.read? (.ofString file) with
    | none => .error .noSettings
    | some text =>
      match Settings.ofToml? text with
      | some s => .ok s
      | none => .error .invalidSettings

/-- The settings for a path, which do not contradict each other. -/
def settings (a : Arguments) (e : Environment) (path : Path) : Except Failure Settings := do
  let s := a.applyTo (← a.readSettings e path)
  match s.validate with
  | .ok _ => return s
  | .error fault => throw (.refused fault)

/-- The text that is written for a document, put together in memory. -/
def format (a : Arguments) (s : Settings) (document : String) : Except Failure String :=
  match (formatOnto Writer.buffer s (a.emit.getD .fortran) document).run "" with
  | .ok _ text => .ok text
  | .error (.document .noTree) _ => .error .noTree
  | .error (.document (.refused fault)) _ => .error (.refused fault)
  | .error .unwritable _ => .error .unwritable

/-- A note, unless the user wants none. -/
def tell (a : Arguments) (note : Note) : List Note := if a.has .silent then [] else [note]

end Arguments

/-! ## Files -/

/-- How far a run has come. -/
structure Progress where
  tree : FileTree
  output : String := ""
  notes : List Note := []
  successes : Nat := 0
  failures : Nat := 0
deriving DecidableEq, Repr

namespace Progress

/-- Adds notes. -/
def note (g : Progress) (notes : List Note) : Progress := { g with notes := g.notes ++ notes }

/-- Counts a file that could not be normalized, and says why. -/
def fail (g : Progress) (path : Path) (cause : Failure) : Progress :=
  { g with notes := g.notes ++ [.failed path cause], failures := g.failures + 1 }

/-- Puts the result for a file where it belongs. -/
def deliver (a : Arguments) (here : Place) (path : Path) (text : String)
    (g : Progress) : Progress :=
  if a.has .stdout then { g with output := g.output ++ text, successes := g.successes + 1 }
  else match g.tree.write? here ((a.emit.getD .fortran).target path) text with
    | some tree => { g with tree, successes := g.successes + 1 }
    | none => g.fail path .unwritable

/-- Passes over a file that is too large. It does not count as a failure. -/
def skip (a : Arguments) (path : Path) (size : Nat) (g : Progress) : Progress :=
  { g.note (a.tell (.skipped path size)) with successes := g.successes + 1 }

/-- Normalizes a file with the given settings. -/
def normalizeFile (a : Arguments) (here : Place) (path : Path) (s : Settings) (g : Progress) :
    Progress :=
  let document := (g.tree.read? here path).getD ""
  if sizeLimit < document.utf8ByteSize then g.skip a path document.utf8ByteSize
  else
    let g := if a.has .stdout then g else g.note (a.tell (.started path))
    match a.format s document with
    | .ok text => g.deliver a here path text
    | .error cause => g.fail path cause

/-- Goes on to a file. Without common settings those for the file are looked for. -/
def step (a : Arguments) (e : Environment) (common : Option Settings) (g : Progress) (path : Path) :
    Progress :=
  match common with
  | some s => g.normalizeFile a e.here path s
  | none =>
    match a.settings { e with tree := g.tree } path with
    | .ok s => g.normalizeFile a e.here path s
    | .error cause => g.fail path cause

/-- What a run over files leaves behind. Where the order of the files can be seen there is no
summary. -/
def outcome (a : Arguments) (g : Progress) : Outcome where
  code := if g.failures = 0 then 0 else 1
  output := g.output
  notes :=
    g.notes ++
      (if a.has .stdout || a.jobs = some 1 then []
        else a.tell (.finished g.successes g.failures)) ++
      (if g.failures = 0 then [] else [.incomplete g.failures])
  tree := g.tree

end Progress

namespace Arguments

/-- Normalizes the selected files. -/
def runFiles (a : Arguments) (e : Environment) (common : Option Settings) : Outcome :=
  match a.files e with
  | [] => { notes := a.tell .nothingFound, tree := e.tree }
  | files => (files.foldl (Progress.step a e common) { tree := e.tree }).outcome a

/-- Whether standard input is normalized: nothing else is named. -/
def readsInput (a : Arguments) : Bool := a.inputs.isEmpty || a.inputs == ["-"]

/-- Normalizes what is given on standard input. -/
def runInput (a : Arguments) (e : Environment) (s : Settings) : Outcome :=
  let result := if sizeLimit < e.input.utf8ByteSize then .error .tooLarge else a.format s e.input
  match result with
  | .ok text => { output := text, notes := a.tell .finishedInput, tree := e.tree }
  | .error cause => { code := 1, notes := [.stopped cause], tree := e.tree }

/-- What the arguments ask for. Settings that are the same for everything are read first. -/
def run (a : Arguments) (e : Environment) : Outcome :=
  if a.readsInput || a.config.isSome then
    match a.settings e e.herePath with
    | .error cause => { code := 1, notes := [.stopped cause], tree := e.tree }
    | .ok s => if a.readsInput then a.runInput e s else a.runFiles e (some s)
  else a.runFiles e none

end Arguments

/-- The name and the version of the command. -/
def versionText : String := "ftidy 0.1.0\n"

/-- How to call the command. -/
def helpText : String :=
  let option (letter : Option Char) (long : String) (value : String) : String :=
    (match letter with
      | some c => "  -" ++ String.ofList [c] ++ ", --"
      | none => "      --") ++ long ++ value ++ "\n"
  "Usage: ftidy [OPTIONS] [FILE]...\n\nOptions:\n" ++
    String.join (Slot.options.map fun s => option s.short? (s.long?.getD "") " <VALUE>") ++
    String.join (Switch.all.map fun s => option s.short? s.long "") ++
    option (some 'h') "help" "" ++ option (some 'V') "version" ""

/-- A run of the command with the given words. -/
def runCommand (words : List String) (e : Environment) : Outcome :=
  match Arguments.parse words with
  | .error (.refused fault) => { code := 2, notes := [.usage fault], tree := e.tree }
  | .error .help => { output := helpText, tree := e.tree }
  | .error .version => { output := versionText, tree := e.tree }
  | .ok a => a.run e

end FortranLayout
