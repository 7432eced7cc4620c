import FortranLayout.Forest.Draft
import FortranLayout.Spacing.Gaps
import FortranLayout.Text.Affix

/-!
# Indentation

The blanks after a newline in a tail are the indentation of the line that follows. Re-indenting
walks down the containers, keeps the level at which the next line is to start, and writes that level
after every newline of each child's tail.

* Opening statements raise the level for what follows them; the line of a closing statement is set
  back to the level at which its container was entered.
* Lines that start with a directive keep their indentation: only tabs are expanded there.
* The shape of the tree never changes.

Levels are natural numbers. They are counted in 64 bits where they are used, so the sum of the level
at the start and all steps on the way down is taken to stay below `2 ^ 64`.
-/

namespace FortranLayout

/-- The settings of the indentation. -/
structure IndentParams where
  /-- What a program unit adds to the level of its body. -/
  programUnit : Nat := 0
  /-- What a branch or construct adds to the level of its body. -/
  branch : Nat := 2
  /-- How the comments begin that are directives. -/
  excludedDirectives : List String := ["!$OMP"]
deriving DecidableEq, Repr

namespace IndentParams

/-! ## One line -/

/-- Whether the line that starts with node `next` keeps its indentation. -/
def keepsLine (p : IndentParams) (f : Forest) (next : Option NodeId) : Bool :=
  match next with
  | none => false
  | some n =>
    match f.kind n with
    | .directive => true
    | .comment => p.excludedDirectives.any (Text.beginsWith · (f.text n))
    | _ => false

/-- A tail after whose newlines exactly `level` blanks stand. -/
def atLevel (level : Nat) (tail : List Char) : List Char :=
  (Gaps.after '\n' level).everywhere (Text.expandTabs tail)

/-- Sets the level of the line after node `i`, which starts with node `next`. -/
def setLevel (p : IndentParams) (d : Draft) (i : NodeId) (level : Nat) (next : Option NodeId) :
    Draft :=
  d.editTail i (if p.keepsLine d.forest next then Text.expandTabs else atLevel level)

/-- Sets the level of the line after the last child of node `i`, which starts with node `next`. -/
def setLevelAfterLast (p : IndentParams) (d : Draft) (i : Option NodeId) (level : Nat)
    (next : NodeId) : Draft :=
  match i.bind d.forest.lastChild? with
  | some last => p.setLevel d last level (some next)
  | none => d

end IndentParams

namespace Forest

/-! ## Openers and closers -/

/-- Whether `child` is tagged as the statement of construct `c` with the given beginning: `X-stmt`
or `end-X-stmt` for `X-construct`. -/
def isStatementOf (f : Forest) (beginning : String) (c child : NodeId) : Bool :=
  match Text.dropEnding? "-construct" (f.tag c) with
  | some stem => f.tag child == beginning ++ stem ++ "-stmt"
  | none => false

/-- Whether `child` opens the body of the construct `c`. Constructs outside the known set are paired
with their statements by tag. -/
def opensBody (f : Forest) (c child : NodeId) : Bool :=
  match f.kind c with
  | .construct .other => f.isStatementOf "" c child
  | .construct known => (f.kind child).opens known
  | _ => false

/-- Whether `child` closes the construct `c`. -/
def closesBody (f : Forest) (c child : NodeId) : Bool :=
  match f.kind c with
  | .construct .other => f.isStatementOf "end-" c child
  | .construct known => (f.kind child).closes known
  | _ => false

/-- Whether `child` is a closing statement, inside the construct `inside` if there is one. -/
def isCloser (f : Forest) (inside : Option NodeId) (child : NodeId) : Bool :=
  match f.kind child with
  | .endUnitStmt _ => true
  | kind => kind.closesBranch || inside.any (f.closesBody · child)

/-- Whether the first child of a container is an ELSE, ELSE IF or ELSEWHERE. -/
def startsInterBranch (f : Forest) (i : NodeId) : Bool :=
  (f.firstChild? i).any fun c => (f.kind c).isInterBranch

/-- The END SELECT that ends an arm of a SELECT CASE, after the node before it. -/
def armEnd? (f : Forest) (arm : NodeId) : Option (NodeId × NodeId) :=
  match (f.children arm).reverse with
  | last :: before :: _ => if f.kind last == .endSelectCaseStmt then some (before, last) else none
  | _ => none

end Forest

namespace IndentParams

/-! ## The walk -/

/-- The level after `child`, given the level before it. -/
def levelAfter (p : IndentParams) (f : Forest) (inside : Option NodeId) (level : Nat)
    (child : NodeId) : Nat :=
  match f.kind child with
  | .unitStmt _ => level + p.programUnit
  | kind =>
    if kind.opensBranch || inside.any (f.opensBody · child) then level + p.branch else level

/-- Sets the line of `child`, if it closes something, back to `level`. -/
def closeAt (p : IndentParams) (d : Draft) (inside previous : Option NodeId) (level : Nat)
    (child : NodeId) : Draft :=
  match previous with
  | some i => if d.forest.isCloser inside child then p.setLevel d i level (some child) else d
  | none => d

/-- Sets the line of the END SELECT that ends an arm to `level`. -/
def closeArm (p : IndentParams) (d : Draft) (level : Nat) (arm : NodeId) : Draft :=
  match d.forest.armEnd? arm with
  | some (before, last) => p.setLevel d before level (some last)
  | none => d

/-- The construct that the children of `child` are directly inside of. -/
def innerConstruct (f : Forest) (child : NodeId) : Option NodeId :=
  match f.kind child with
  | .construct _ => some child
  | _ => none

mutual

/-- Re-indents what is below a shape entered at `level`, directly inside the construct `inside` if
there is one. -/
def indentBelow (p : IndentParams) (level : Nat) (inside : Option NodeId) :
    Shape → Draft → Draft
  | .node i cs, d =>
    p.indentFrom level inside (d.forest.kind i == .construct .selectCase) level none cs d

/-- Re-indents the shapes `cs`, children of a container entered at `level`, when the level has
become `current` and the child before them is `previous`. Each arm of a SELECT CASE is a block: its
CASE line sits one branch in, its statements two. -/
def indentFrom (p : IndentParams) (level : Nat) (inside : Option NodeId) (inSelect : Bool)
    (current : Nat) (previous : Option NodeId) : List Shape → Draft → Draft
  | [], d => d
  | s :: rest, d =>
    let child := s.id
    let current := p.levelAfter d.forest inside current child
    let d := p.setLevel d child current (rest.head?.map Shape.id)
    let d :=
      if inSelect then
        let d := p.setLevelAfterLast d previous (level + p.branch) child
        let d := p.indentBelow (level + 2 * p.branch) none s d
        p.closeArm d level child
      else if (d.forest.kind child).isContainer then
        let d :=
          if d.forest.startsInterBranch child then p.setLevelAfterLast d previous level child else d
        p.indentBelow current (innerConstruct d.forest child) s d
      else d
    let d := p.closeAt d inside previous level child
    p.indentFrom level inside inSelect current (some child) rest d

end

end IndentParams

/-- Re-indents what is below node `i`, starting at level `base`. -/
def indentSubtree (p : IndentParams) (i : NodeId) (base : Nat) (f : Forest) : Draft :=
  p.indentBelow base none (f.shape i) { forest := f }

/-- Re-indents the whole tree from level 0. -/
def indentTree (p : IndentParams) (f : Forest) : Draft := indentSubtree p Forest.root 0 f

end FortranLayout
