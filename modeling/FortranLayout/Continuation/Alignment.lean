import FortranLayout.Continuation.Anchor
import FortranLayout.Continuation.Options
import FortranLayout.Forest.Navigation
import FortranLayout.Spacing.Gaps

/-!
# Aligning continued lines

The walk goes through the document with the text of the current line and, inside a continued
statement, the column on which its lines are aligned. The column is found at the first marker that
ends a line and forgotten when a line ends otherwise.
-/

namespace FortranLayout

namespace Forest

/-- `nearestStatement?` in at most `fuel` steps. -/
def nearestStatementWithin? (f : Forest) : Nat → NodeId → Option NodeId
  | 0, _ => none
  | fuel + 1, i =>
    if (f.kind i).isStatement then some i
    else (f.parent? i).bind (f.nearestStatementWithin? fuel)

/-- The nearest statement among a node and those above it. -/
def nearestStatement? (f : Forest) (i : NodeId) : Option NodeId :=
  f.nearestStatementWithin? f.size i

/-- The class of the statement around a node. -/
def anchorClass (f : Forest) (i : NodeId) : AnchorClass :=
  match f.nearestStatement? i with
  | some s => .ofKind (f.kind s)
  | none => .generic

end Forest

/-- A forest whose continued lines are being aligned. -/
structure Alignment where
  forest : Forest
  /-- The number of tails that changed. -/
  aligned : Nat := 0
  /-- The text of the current line. -/
  line : List Char := []
  /-- The column of the lines that continue the current statement. -/
  column : Option Nat := none

namespace Alignment

/-- What follows the last newline of a text, if it has one. -/
def afterLastNewline? : List Char → Option (List Char)
  | [] => none
  | c :: s =>
    match afterLastNewline? s with
    | some line => some line
    | none => if c = '\n' then some s else none

/-- Starts the lines after node `i` at the given column. -/
def alignTail (a : Alignment) (i : NodeId) (column : Nat) : Alignment :=
  let tail := String.ofList ((Gaps.after '\n' column).everywhere (a.forest.tail i).toList)
  if tail = a.forest.tail i then a
  else { a with forest := a.forest.setTail i tail, aligned := a.aligned + 1 }

/-- Whether node `i`, with a node of kind `next` after it, is a marker that ends a line. -/
def isEndMarker (a : Alignment) (i : NodeId) (next : Option Kind) : Bool :=
  a.forest.kind i == .continuation &&
    (Text.hasNewline (a.forest.tail i).toList || next == some .comment)

/-- Finds the column of the statement at its first marker: `i` is a marker below `parent` that ends
a line, with a node of kind `next` after it. -/
def findColumn (a : Alignment) (parent : NodeId) (next : Option Kind) : Alignment :=
  match a.column with
  | some _ => a
  | none =>
    let beginMarker := next.all (· == .continuation)
    { a with column := some ((a.forest.anchorClass parent).column a.line beginMarker) }

/-- Aligns the line after node `i`, a child of `parent`, where that line continues a statement.
`afterComment` says that a comment after a marker has been met, with nothing else since. -/
def alignAfter (a : Alignment) (parent i : NodeId) (next : Option Kind) (afterComment : Bool) :
    Alignment :=
  let kind := a.forest.kind i
  let endMarker := a.isEndMarker i next
  if endMarker || (afterComment && kind == .comment) ||
      (a.column.isSome && kind == .directive) then
    let a := if endMarker then a.findColumn parent next else a
    if next == some .directive then a
    else a.alignTail i (a.column.getD AnchorClass.standardColumn)
  else a

/-- Appends the text of node `i` to the line. Comments and markers have no text that counts. -/
def readText (a : Alignment) (i : NodeId) : Alignment :=
  match a.forest.kind i with
  | .comment | .continuation => a
  | _ => { a with line := a.line ++ (a.forest.text i).toList }

/-- Appends the tail of node `i` to the line. A newline starts a new line, and the statement ends
with it unless it follows a marker, a comment or a directive. -/
def readTail (a : Alignment) (i : NodeId) : Alignment :=
  let line := a.line ++ (a.forest.tail i).toList
  match afterLastNewline? line with
  | none => { a with line := line }
  | some rest =>
    match a.forest.kind i with
    | .continuation | .comment | .directive => { a with line := rest }
    | _ => { a with line := rest, column := none }

mutual

/-- Aligns the continued lines below a shape. -/
def alignBelow : Shape → Alignment → Alignment
  | .node i cs, a => alignFrom i false cs a

/-- Aligns the continued lines in the shapes `cs`, children of `parent`. -/
def alignFrom (parent : NodeId) (afterComment : Bool) : List Shape → Alignment → Alignment
  | [], a => a
  | s :: rest, a =>
    let child := s.id
    let kind := a.forest.kind child
    let next := rest.head?.map fun r => a.forest.kind r.id
    let afterComment :=
      afterComment || (a.isEndMarker child next && next == some .comment)
    let a := a.alignAfter parent child next afterComment
    let a := a.readText child
    let a := alignBelow s a
    let a := a.readTail child
    alignFrom parent (afterComment && (kind == .comment || kind == .continuation)) rest a

end

end Alignment

end FortranLayout
