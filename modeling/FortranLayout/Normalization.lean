import FortranLayout.Conditional
import FortranLayout.Contains
import FortranLayout.Continuation.Update
import FortranLayout.EmptyLines
import FortranLayout.Settings.Basic
import FortranLayout.Spacing.Pass

/-!
# Normalization

The passes that are switched on run in a fixed order: the structural ones, spacing, indentation, the
continuation markers, which are aligned on the final text of each line, and last the case of
letters. Settings are checked before the first pass, and no pass can fail.
-/

namespace FortranLayout

/-- What each pass did. -/
structure Report where
  commentsRemoved : Nat := 0
  ifStatementsConverted : Nat := 0
  containsRemoved : Nat := 0
  blankLineEdits : Nat := 0
  spacingEdits : Nat := 0
  indentEdits : Nat := 0
  continuation : MarkerReport := {}
  caseEdits : Nat := 0
deriving DecidableEq, Repr

/-- A pass, if it is switched on. -/
def runPass (on : Bool) (pass : Forest → Draft) (f : Forest) : Draft :=
  if on then pass f else { forest := f }

namespace Settings

/-- Runs the passes that are switched on. -/
def run (s : Settings) (f : Forest) : Forest × Report :=
  let comments := runPass s.passes.removeComments (removeComments s.comments) f
  let ifs := runPass s.passes.convertIfStatements convertIfStatements comments.forest
  let contains := runPass s.passes.removeEmptyContains removeEmptyContains ifs.forest
  let lines := runPass s.passes.removeEmptyLines removeEmptyLines contains.forest
  let spacing := runPass s.passes.spacing s.spacing.apply lines.forest
  let indentation := runPass s.passes.indent (indentTree s.indent) spacing.forest
  let markers :=
    if s.passes.continuation then s.continuation.apply Forest.root indentation.forest
    else { forest := indentation.forest }
  let letters := convertCase s.passes.case markers.forest
  (letters.forest,
    { commentsRemoved := comments.edits
      ifStatementsConverted := ifs.edits
      containsRemoved := contains.edits
      blankLineEdits := lines.edits
      spacingEdits := spacing.edits
      indentEdits := indentation.edits
      continuation := markers.report
      caseEdits := letters.edits })

end Settings

/-- Normalizes a tree, if the settings are valid. -/
def normalize (s : Settings) (f : Forest) : Except Fault (Forest × Report) := do
  s.validate
  return s.run f

end FortranLayout
