import FortranLayout.Forest.Draft
import FortranLayout.Text.CaseMap

/-!
# Letter case of code

Only the texts of code nodes are converted: tails hold blanks and punctuation, and comments,
directives and strings are left as written.
-/

namespace FortranLayout

/-- What to do with the case of letters. -/
inductive CaseMode where
  | keep
  | lower
  | upper
deriving DecidableEq, Repr

/-- Converts the case of all code. -/
def convertCase (mode : CaseMode) (f : Forest) : Draft :=
  let convert (g : List Char → List Char) : Draft :=
    f.preorder.foldl (fun d i => if (d.forest.kind i).isNonCode then d else d.editText i g)
      { forest := f }
  match mode with
  | .keep => { forest := f }
  | .lower => convert Text.toLower
  | .upper => convert Text.toUpper

end FortranLayout
