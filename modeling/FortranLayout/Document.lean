import FortranLayout.Forest.OfElement
import FortranLayout.Json.Element
import FortranLayout.Json.Parser
import FortranLayout.Json.Printer
import FortranLayout.Normalization

/-!
# Documents

A tree comes as a JSON document. It is read, normalized, and written as Fortran source or as a
document again. Nothing is written when the document is no tree or the settings are refused.
-/

namespace FortranLayout

/-- What is written for a normalized tree. -/
inductive Emit where
  | fortran
  | json
deriving DecidableEq, Repr

/-- Why a document is not formatted. -/
inductive DocumentFault where
  /-- The text is not the document of a tree. -/
  | noTree
  /-- The settings are refused. -/
  | refused (fault : Fault)
deriving DecidableEq, Repr

/-- The tree of a document. -/
def Element.ofDocument? (text : String) : Option Element :=
  (Json.parse text.toList).bind (Element.ofData? Element.levelLimit)

/-- The text written for a tree. -/
def Forest.emit (f : Forest) : Emit → String
  | .fortran => f.source
  | .json => Json.document f.toElement

/-- Normalizes the tree of a document and writes it. -/
def formatDocument (s : Settings) (emit : Emit) (text : String) :
    Except DocumentFault (String × Report) :=
  match Element.ofDocument? text with
  | none => .error .noTree
  | some e =>
    match normalize s (Forest.ofElement e) with
    | .error fault => .error (.refused fault)
    | .ok (f, report) => .ok (f.emit emit, report)

end FortranLayout
