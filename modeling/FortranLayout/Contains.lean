import FortranLayout.Forest.Draft
import FortranLayout.Forest.Navigation

/-!
# Dropping empty CONTAINS sections

A CONTAINS statement goes when nothing but comments stands between it and the end of its unit. An
interface block has no such section.
-/

namespace FortranLayout

/-- Whether a statement of this kind ends a unit that can have a CONTAINS section. -/
def Kind.endsContainsSection : Kind → Bool
  | .endUnitStmt unit => unit != .interface
  | _ => false

namespace Forest

/-- Whether the section that a CONTAINS statement opens is empty. -/
def isEmptySection (f : Forest) (i : NodeId) : Bool :=
  ((f.siblingsAfter i).find? (f.kind · != .comment)).any fun next =>
    (f.kind next).endsContainsSection

/-- Drops the CONTAINS statement `i` if its section is empty. -/
def dropContains (d : Draft) (i : NodeId) : Draft :=
  match d.forest.parent? i with
  | some p => if d.forest.isEmptySection i then ⟨d.forest.detach p i, d.edits + 1⟩ else d
  | none => d

end Forest

/-- Drops every CONTAINS statement whose section is empty. -/
def removeEmptyContains (f : Forest) : Draft :=
  (f.preorder.filter (f.kind · == .containsStmt)).foldl Forest.dropContains { forest := f }

end FortranLayout
