import FortranLayout.Comments
import FortranLayout.Continuation.Options
import FortranLayout.Indentation
import FortranLayout.LetterCase
import FortranLayout.Spacing.Rules

/-!
# Settings

Which passes run, and the settings of each.
-/

namespace FortranLayout

/-- Which passes run. -/
structure Passes where
  removeComments : Bool := false
  convertIfStatements : Bool := false
  removeEmptyContains : Bool := false
  removeEmptyLines : Bool := false
  spacing : Bool := true
  indent : Bool := true
  continuation : Bool := true
  case : CaseMode := .keep
deriving DecidableEq, Repr

/-- All settings. -/
structure Settings where
  passes : Passes := {}
  indent : IndentParams := {}
  comments : CommentOptions := {}
  continuation : MarkerOptions := {}
  spacing : SpacingRules := {}
deriving DecidableEq, Repr

/-- Checks all settings, also those of passes that do not run. -/
def Settings.validate (s : Settings) : Except Fault Unit := do
  s.continuation.validate
  s.spacing.validate

end FortranLayout
