import FortranLayout.Kind
import FortranLayout.Text.Pattern

/-!
# Anchors of continued lines

The lines that continue a statement are aligned on a column of its first line: the end of the first
anchor, in the order of the statement's class, that the line has.
-/

namespace FortranLayout

open Text (Piece Pattern)
open Text.Pattern renaming spelling → spell

/-- The classes of statements that share their anchors. -/
inductive AnchorClass where
  | assignment
  | call
  | ifThen
  | whereMask
  | forallLoop
  | namelist
  | subroutine
  | use
  | declaration
  | print
  | write
  | moduleProcedure
  | generic
deriving DecidableEq, Repr

namespace AnchorClass

/-- Every class. -/
def all : List AnchorClass :=
  [assignment, call, ifThen, whereMask, forallLoop, namelist, subroutine, use, declaration, print,
   write, moduleProcedure, generic]

/-- The name of the class. -/
def name : AnchorClass → String
  | assignment => "Assignment"
  | call => "Call"
  | ifThen => "If"
  | whereMask => "Where"
  | forallLoop => "Forall"
  | namelist => "Namelist"
  | subroutine => "Subroutine"
  | use => "Use"
  | declaration => "Declaration"
  | print => "Print"
  | write => "Write"
  | moduleProcedure => "ModuleProcedure"
  | generic => "Generic"

/-- The class with the given name. -/
def ofName? (name : String) : Option AnchorClass := all.find? (·.name == name)

/-- The class of a statement of the given kind. -/
def ofKind : Kind → AnchorClass
  | .assignStmt | .pointerAssignStmt => assignment
  | .callStmt => call
  | .ifStmt | .elseIfStmt | .endIfStmt => ifThen
  | .whereStmt | .elseWhereStmt | .endWhereStmt => whereMask
  | .forallStmt | .endConstructStmt .forallLoop => forallLoop
  | .namelistStmt => namelist
  | .unitStmt .subroutine | .endUnitStmt .subroutine => subroutine
  | .useStmt => use
  | .declStmt => declaration
  | .printStmt => print
  | .writeStmt => write
  | .unitStmt .procedure | .endUnitStmt .procedure => moduleProcedure
  | _ => generic

/-- Any number of blanks. -/
def someBlanks : Piece := .gap 0 none

/-- At least one blank. -/
def moreBlanks : Piece := .gap 1 none

/-- The anchors of a class, the most wanted first. -/
def anchors : AnchorClass → List Pattern
  | assignment => ["=>", "=", "("].map spell
  | call => [spell "(", spell "call" ++ [moreBlanks, .word], spell "call ", spell "call"]
  | ifThen => ["(", ")", "if ", "if"].map spell
  | whereMask => ["(", ")", "where ", "where"].map spell
  | forallLoop => ["(", ")", "forall ", "forall"].map spell
  | namelist => [[.char '/', .throughLast '/'], spell "/", spell "namelist"]
  | subroutine =>
    [spell "(", spell "subroutine" ++ [moreBlanks, .word], spell "subroutine ", spell "subroutine"]
  | use => [spell ":", spell "use" ++ [moreBlanks, .word], spell "use ", spell "use"]
  | declaration => [spell "::", [.word, .char ','], [.word, .char ' '], [.word]]
  | print => [spell "print"]
  | write =>
    [spell ")", spell "write" ++ [someBlanks, .char '('], spell "write" ++ [someBlanks],
      spell "write"]
  | moduleProcedure =>
    [spell "module" ++ moreBlanks :: spell "procedure" ++ [someBlanks],
     spell "module" ++ [someBlanks], spell "module"]
  | generic => ["::", ":", "(", "=>", "=", "[", ":", "/"].map spell

/-- The column of a line without any anchor. -/
def standardColumn : Nat := 4

/-- The column for the lines that continue `line`. When they begin with a marker, they start one
column further left, so that what follows the marker is on the anchor. -/
def column (c : AnchorClass) (line : List Char) (beginMarker : Bool) : Nat :=
  match c.anchors.findSome? (·.endOfFirst? line) with
  | some n => if beginMarker then n - 1 else n
  | none => standardColumn

end AnchorClass

end FortranLayout
