import FortranLayout.Document

/-!
# Arguments of the command line

What a command line asks for. Switches are off until given; of the settings, only those that a
command line names are changed.

* `Arguments.applyTo` lays the arguments over settings that were read from files.
-/

namespace FortranLayout

/-- An option that takes no value. -/
inductive Switch where
  | stdout
  | recursive
  | debug
  | silent
  | removeComments
  | convertIf
  | removeEmptyContains
  | removeEmptyLines
  | noSpacing
  | noIndent
  | noContinuation
  | upperCase
  | lowerCase
  | noAlign
  | noAddBegin
  | removeAllMarkers
  | removeBeginMarkers
deriving DecidableEq, Repr

namespace Switch

/-- Every switch. -/
def all : List Switch :=
  [.stdout, .recursive, .debug, .silent, .removeComments, .convertIf, .removeEmptyContains,
    .removeEmptyLines, .noSpacing, .noIndent, .noContinuation, .upperCase, .lowerCase, .noAlign,
    .noAddBegin, .removeAllMarkers, .removeBeginMarkers]

/-- The name that follows two dashes. -/
def long : Switch → String
  | stdout => "stdout"
  | recursive => "recursive"
  | debug => "debug"
  | silent => "silent"
  | removeComments => "remove-comments"
  | convertIf => "convert-if"
  | removeEmptyContains => "remove-empty-contains"
  | removeEmptyLines => "remove-empty-lines"
  | noSpacing => "no-spacing"
  | noIndent => "no-indent"
  | noContinuation => "no-continuation"
  | upperCase => "upper-case"
  | lowerCase => "lower-case"
  | noAlign => "no-align"
  | noAddBegin => "no-add-begin"
  | removeAllMarkers => "remove-all-cnt"
  | removeBeginMarkers => "remove-begin-cnt"

/-- The letter that follows one dash. -/
def short? : Switch → Option Char
  | stdout => some 's'
  | recursive => some 'r'
  | debug => some 'D'
  | silent => some 'S'
  | _ => none

end Switch

/-- Where the values of a command line go: to an option that takes a value, or to the inputs. -/
inductive Slot where
  | inputs
  | config
  | emit
  | exclude
  | extension
  | jobs
  | indentBranch
  | indentUnit
deriving DecidableEq, Repr

namespace Slot

/-- The slots that are options. -/
def options : List Slot :=
  [.config, .emit, .exclude, .extension, .jobs, .indentBranch, .indentUnit]

/-- The name that follows two dashes. -/
def long? : Slot → Option String
  | inputs => none
  | config => some "config"
  | emit => some "emit"
  | exclude => some "exclude"
  | extension => some "extension"
  | jobs => some "jobs"
  | indentBranch => some "indent-branch"
  | indentUnit => some "indent-unit"

/-- The letter that follows one dash. -/
def short? : Slot → Option Char
  | config => some 'c'
  | exclude => some 'e'
  | extension => some 'x'
  | jobs => some 'j'
  | indentBranch => some 'i'
  | _ => none

end Slot

/-- What a command line asks for. -/
structure Arguments where
  /-- The switches that are on. -/
  switches : List Switch := []
  /-- The files and directories to normalize. -/
  inputs : List String := []
  /-- The file to read settings from, in place of those that are found. -/
  config : Option String := none
  emit : Option Emit := none
  /-- Patterns of the files and directories to leave out. -/
  exclude : List String := []
  /-- Further extensions of files to normalize. -/
  extensions : List String := []
  /-- How many files are normalized at a time. -/
  jobs : Option Nat := none
  indentBranch : Option Nat := none
  indentUnit : Option Nat := none
deriving DecidableEq, Repr

namespace Arguments

/-- Whether a switch is on. -/
def has (a : Arguments) (s : Switch) : Bool := a.switches.contains s

/-- The case of letters that is asked for. -/
def case? (a : Arguments) : Option CaseMode :=
  if a.has .upperCase then some .upper
  else if a.has .lowerCase then some .lower
  else none

/-- The passes to run. -/
def passes (a : Arguments) (p : Passes) : Passes where
  removeComments := p.removeComments || a.has .removeComments
  convertIfStatements := p.convertIfStatements || a.has .convertIf
  removeEmptyContains := p.removeEmptyContains || a.has .removeEmptyContains
  removeEmptyLines := p.removeEmptyLines || a.has .removeEmptyLines
  spacing := p.spacing && !a.has .noSpacing
  indent := p.indent && !a.has .noIndent
  continuation := p.continuation && !a.has .noContinuation
  case := a.case?.getD p.case

/-- The options for markers. A way to remove markers switches off what cannot go with it. -/
def markers (a : Arguments) (o : MarkerOptions) : MarkerOptions where
  align := o.align && !a.has .noAlign && !a.has .removeAllMarkers
  removeAll := o.removeAll || a.has .removeAllMarkers
  addBegin :=
    o.addBegin && !a.has .noAddBegin && !a.has .removeAllMarkers && !a.has .removeBeginMarkers
  removeBegin := o.removeBegin || a.has .removeBeginMarkers

/-- Settings with the arguments laid over them. -/
def applyTo (a : Arguments) (s : Settings) : Settings :=
  { s with
    passes := a.passes s.passes
    indent :=
      { s.indent with
        branch := a.indentBranch.getD s.indent.branch
        programUnit := a.indentUnit.getD s.indent.programUnit }
    continuation := a.markers s.continuation }

/-- Without arguments the settings stay as they are. -/
@[simp] theorem applyTo_empty (s : Settings) : ({} : Arguments).applyTo s = s := by
  simp [applyTo, passes, markers, has, case?]

/-- A way to remove markers that is asked for on the command line is never refused as a
contradiction to the standard options. -/
theorem validate_markers_standard (a : Arguments) : (a.markers {}).validate = .ok () := by
  by_cases h1 : a.has .removeAllMarkers <;> by_cases h2 : a.has .removeBeginMarkers <;>
    simp [markers, MarkerOptions.validate, h1, h2]

end Arguments

end FortranLayout
