import FortranLayout.Forest.Draft
import FortranLayout.Forest.Navigation
import FortranLayout.Text.Blank

/-!
# From one-line IF statements to IF constructs

`IF (condition) action` becomes three lines: `IF (condition) THEN`, the action two columns further
in, and `END IF`. Statements whose action contains a CYCLE are left alone.
-/

namespace FortranLayout

namespace Forest

/-- The number of blanks that end the tail before the child at position `index` of `parent`: the
indentation of its line. -/
def blanksBefore (f : Forest) (parent : NodeId) (index : Nat) : Nat :=
  match index with
  | 0 => 0
  | before + 1 =>
    match (f.children parent)[before]? with
    | some sibling => ((f.tail sibling).toList.reverse.takeWhile Text.isBlank).length
    | none => 0

/-- The indentation of the line of node `i`, which is looked for below `parent` if that is given. -/
def lineIndent (f : Forest) (i : NodeId) (parent : Option NodeId) : Nat :=
  match parent with
  | some p => (f.childIndex? p i).elim 0 (f.blanksBefore p)
  | none => (f.position? i).elim 0 fun (p, k) => f.blanksBefore p k

/-- The parts of a one-line IF: its condition, the wrapper of its action, and the action. -/
def oneLineIf? (f : Forest) (i : NodeId) : Option (NodeId × NodeId × NodeId) := do
  let condition ← f.childOfKind? i .condition
  let action ← f.childOfKind? i .actionStmt
  let statement ← f.firstChild? action
  return (condition, action, statement)

/-- The tail of a condition with THEN after it. -/
def thenTail (tail : String) : String :=
  if tail.toList.getLast? = some ' ' then tail ++ "THEN" else tail ++ " THEN"

/-- Turns the one-line IF `i` with the given parts into an IF construct, its line indented by
`level`. The markers that continued the line are dropped. -/
def toIfConstruct (f : Forest) (i condition action statement : NodeId) (level : Nat) : Forest :=
  let block := f.size
  let header := f.size + 1
  let closing := f.size + 2
  let opening := f.text i
  let f := f.setTag i "if-construct"
  let f := f.add { tag := "if-block" }
  let f := f.add { tag := "if-then-stmt", text := opening, tail := Text.lineBreak (level + 2) }
  let f := f.add { tag := "end-if-stmt", text := "END IF" }
  let f := f.setText i ""
  let f := f.detach i condition
  let f := f.setTail condition (thenTail (f.tail condition))
  let f := f.appendChild header condition
  let f := f.detach i action
  let f := f.detach action statement
  let f := f.setTail statement (Text.lineBreak level)
  let f := f.appendChild block header
  let f := f.appendChild block statement
  let f := f.appendChild block closing
  let markers := (f.children i).filter (f.kind · == .continuation)
  let f := markers.foldl (fun f marker => f.detach i marker) f
  f.appendChild i block

/-- Converts node `i`, if it is a one-line IF without a CYCLE and has all its parts. -/
def convertIf (d : Draft) (parent : Option NodeId) (i : NodeId) : Draft :=
  let f := d.forest
  if f.kind i == .ifStmt && !f.hasBelow i .cycleStmt then
    match f.oneLineIf? i with
    | some (condition, action, statement) =>
      ⟨f.toIfConstruct i condition action statement (f.lineIndent i parent), d.edits + 1⟩
    | none => d
  else d

end Forest

/-- Converts every one-line IF of the tree. -/
def convertIfStatements (f : Forest) : Draft :=
  (f.preorder.filter (f.kind · == .ifStmt)).foldl (fun d i => Forest.convertIf d none i)
    { forest := f }

/-- Converts the one-line IF `i`, a child of `parent` if that is given. -/
def convertIfStatement (i : NodeId) (parent : Option NodeId) (f : Forest) : Draft :=
  Forest.convertIf { forest := f } parent i

end FortranLayout
