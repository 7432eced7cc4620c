import FortranLayout.Indentation
import FortranLayout.Proofs.Forest.Held
import FortranLayout.Proofs.LineStarts
import Mathlib.Data.List.ModifyLast

/-!
# Indentation of elements

What re-indenting does to a tree, as a function of elements. The level of a line stands in the tail
before it, so the walk comes back to an element when it sees what follows: a closing statement, a
further branch, a further arm. Here all that is done to an element is done at once, with a look at
the next one (`Element.leadTo`), and `Element.indentAll` goes through the elements from the first to
the last.
-/

namespace FortranLayout

namespace Element

variable (p : IndentParams)

/-! ## One line -/

/-- Whether the line that starts with the element `next` keeps its indentation. -/
def keepsLine (next : Option Element) : Bool :=
  match next with
  | none => false
  | some n =>
    match n.kind with
    | .directive => true
    | .comment => p.excludedDirectives.any (Text.beginsWith · n.text)
    | _ => false

/-- Sets the level of the line after `e`, which starts with the element `next`. -/
def setLevel (level : Nat) (next : Option Element) (e : Element) : Element :=
  { e with
    tail := String.ofList
      ((if keepsLine p next then Text.expandTabs else IndentParams.atLevel level) e.tail.toList) }

/-- Sets the level of the line after the last child of `e`, which starts with the element `next`. -/
def setLevelAfterLast (level : Nat) (e next : Element) : Element :=
  { e with children := e.children.modifyLast (setLevel p level (some next)) }

/-! ## Openers and closers -/

/-- Whether `e` is tagged as the statement of a construct, tagged `construct`, with the given
beginning. -/
def isStatementOf (beginning construct : String) (e : Element) : Bool :=
  match Text.dropEnding? "-construct" construct with
  | some stem => e.tag == beginning ++ stem ++ "-stmt"
  | none => false

/-- Whether `e` opens the body of a construct, tagged `construct`. -/
def opensBody (construct : String) (e : Element) : Bool :=
  match Kind.ofTag construct with
  | .construct .other => e.isStatementOf "" construct
  | .construct known => e.kind.opens known
  | _ => false

/-- Whether `e` closes a construct, tagged `construct`. -/
def closesBody (construct : String) (e : Element) : Bool :=
  match Kind.ofTag construct with
  | .construct .other => e.isStatementOf "end-" construct
  | .construct known => e.kind.closes known
  | _ => false

/-- Whether `e` is a closing statement, inside a construct tagged `inside` if there is one. -/
def isCloser (inside : Option String) (e : Element) : Bool :=
  match e.kind with
  | .endUnitStmt _ => true
  | kind => kind.closesBranch || inside.any (closesBody · e)

/-- Whether the first child of a container is an ELSE, ELSE IF or ELSEWHERE. -/
def startsInterBranch (e : Element) : Bool := e.children.head?.any fun c => c.kind.isInterBranch

/-- The level after `e`, given the level before it. -/
def levelAfter (inside : Option String) (level : Nat) (e : Element) : Nat :=
  match e.kind with
  | .unitStmt _ => level + p.programUnit
  | kind => if kind.opensBranch || inside.any (opensBody · e) then level + p.branch else level

/-- The tag of the construct that the children of `e` are directly inside of. -/
def innerTag (e : Element) : Option String :=
  match e.kind with
  | .construct _ => some e.tag
  | _ => none

/-- Sets the line of the END SELECT that ends an arm to `level`. -/
def closeArm (level : Nat) (arm : Element) : Element :=
  match arm.children.getLast? with
  | some last =>
    if last.kind == .endSelectCaseStmt then
      { arm with
        children := arm.children.dropLast.modifyLast (setLevel p level (some last)) ++ [last] }
    else arm
  | none => arm

/-! ## The walk -/

/-- Sets the line of the next element, if that is a further branch or a further arm. -/
def leadToBranch (level : Nat) (inSelect : Bool) (e next : Element) : Element :=
  if inSelect then e.setLevelAfterLast p (level + p.branch) next
  else if next.kind.isContainer && next.startsInterBranch then e.setLevelAfterLast p level next
  else e

/-- Sets the line of the next element, if that is a further branch or arm or a closing statement. -/
def leadTo (level : Nat) (inside : Option String) (inSelect : Bool) (next : Option Element)
    (e : Element) : Element :=
  match next with
  | none => e
  | some n =>
    if n.isCloser inside then (e.leadToBranch p level inSelect n).setLevel p level (some n)
    else e.leadToBranch p level inSelect n

mutual

/-- The children of an element that is entered at `level`, directly inside a construct tagged
`inside` if there is one. -/
def indentBelow (level : Nat) (inside : Option String) : Element → List Element
  | ⟨tag, _, _, cs⟩ =>
    indentAll level inside (Kind.ofTag tag == .construct .selectCase) level cs

/-- Elements of a container entered at `level`, when the level has become `current`. -/
def indentAll (level : Nat) (inside : Option String) (inSelect : Bool) (current : Nat) :
    List Element → List Element
  | [] => []
  | e :: rest =>
    let current := e.levelAfter p inside current
    let set := e.setLevel p current rest.head?
    let visited :=
      if inSelect then
        closeArm p level { set with children := e.indentBelow (level + 2 * p.branch) none }
      else if e.kind.isContainer then { set with children := e.indentBelow current e.innerTag }
      else set
    visited.leadTo p level inside inSelect rest.head? ::
      indentAll level inside inSelect current rest

end

/-- What is done to an element before the next one is looked at. The level has become `current`. -/
def visit (level : Nat) (inSelect : Bool) (current : Nat) (next : Option Element) (e : Element) :
    Element :=
  if inSelect then
    closeArm p level
      { e.setLevel p current next with children := e.indentBelow p (level + 2 * p.branch) none }
  else if e.kind.isContainer then
    { e.setLevel p current next with children := e.indentBelow p current e.innerTag }
  else e.setLevel p current next

theorem indentAll_cons (level : Nat) (inside : Option String) (inSelect : Bool) (current : Nat)
    (e : Element) (rest : List Element) :
    indentAll p level inside inSelect current (e :: rest) =
      (e.visit p level inSelect (e.levelAfter p inside current) rest.head?).leadTo p level inside
          inSelect rest.head? ::
        indentAll p level inside inSelect (e.levelAfter p inside current) rest := by
  rw [indentAll]
  rfl

theorem indentBelow_with_tail (level : Nat) (inside : Option String) (e : Element) (t : String) :
    indentBelow p level inside { e with tail := t } = e.indentBelow p level inside := by
  cases e
  simp [indentBelow]

end Element

end FortranLayout
