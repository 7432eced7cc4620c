import FortranLayout.Forest.Draft
import FortranLayout.Forest.Navigation
import FortranLayout.Spacing.Gaps

/-!
# The spacing pass

The rules are applied in four rounds over the nodes in document order: punctuation and the rules of
each kind; operators, assignments and conditionals, whose rules act on the children of a node; the
blanks next to continuation markers; adjacent keywords. No round changes the shape of the tree, so
all of them go through the same nodes.
-/

namespace FortranLayout

namespace Draft

/-- Edits the tail of a node for a width that is not kept. -/
def fitTail (d : Draft) (i : NodeId) (w : Width) (g : Nat → List Char → List Char) : Draft :=
  match w with
  | .exactly n => d.editTail i (g n)
  | .keep => d

/-- Edits the text of a node for a width that is not kept. -/
def fitText (d : Draft) (i : NodeId) (w : Width) (g : Nat → List Char → List Char) : Draft :=
  match w with
  | .exactly n => d.editText i (g n)
  | .keep => d

/-- Edits the tail of a node, and its text where that is code, for a width that is not kept. -/
def fitCode (d : Draft) (i : NodeId) (w : Width) (g : Nat → List Char → List Char) : Draft :=
  match w with
  | .exactly n => d.editCode i (g n)
  | .keep => d

end Draft

/-- Each item of a list with the item before it. -/
def withPrevious {α : Type} (items : List α) : List (Option α × α) :=
  (none :: items.map some).zip items

namespace SpacingRules

open Text (leadWith endWith shiftRight strip squeeze hasNewline)

/-! ## First round: punctuation and kinds -/

/-- Tabs, parentheses, commas and line ends, at any node. -/
def punctuation (r : SpacingRules) (d : Draft) (i : NodeId) : Draft :=
  let d := if r.expandTabs then d.editTail i Text.expandTabs else d
  let d := d.fitCode i r.beforeParenthesis Gaps.beforeParentheses
  let d := d.fitCode i r.afterParenthesis Gaps.afterParentheses
  let d := d.fitCode i r.beforeComma fun n => (Gaps.before ',' n).everywhere
  let d := d.fitCode i r.afterComma fun n => (Gaps.after ',' n).everywhere
  if r.endOfLine then d.editTail i (Gaps.before '\n' 0).everywhere else d

/-- The blanks around the equals signs in the tail of a node. -/
def equalSign (d : Draft) (i : NodeId) (before after : Width) : Draft :=
  let d := d.fitTail i before fun n => (Gaps.before '=' n).everywhere
  d.fitTail i after fun n => (Gaps.after '=' n).everywhere

/-- The blanks inside and after a name. -/
def nameGaps (r : SpacingRules) (d : Draft) (i : NodeId) : Draft :=
  let parts := (d.forest.children i).filter (d.forest.kind · == .namePart)
  let d := if r.inName then parts.foldl (fun d part => d.editTail part strip) d else d
  d.fitTail i r.afterName leadWith

/-- The blanks around the separator of two statements on a line. -/
def separatorGaps (r : SpacingRules) (d : Draft) (i : NodeId) : Draft :=
  let d := match d.forest.previousSibling? i with
    | some previous => d.fitTail previous r.beforeSeparator leadWith
    | none => d
  d.fitTail i r.afterSeparator endWith

/-- The blanks around the arrow of an association. -/
def associationGaps (r : SpacingRules) (d : Draft) (i : NodeId) : Draft :=
  let d := d.fitTail i r.beforeAffectation fun n => (Gaps.before '=' n).everywhere
  let d := d.fitTail i r.afterAffectation fun n => (Gaps.after '>' n).everywhere
  if r.inAffectation then d.editTail i (Gaps.joined '=' '>').everywhere else d

/-- The blanks after a statement keyword, where something follows it. -/
def keywordGap (r : SpacingRules) (d : Draft) (i : NodeId) : Draft :=
  match AfterKeyword.forKind? (d.forest.kind i) with
  | none => d
  | some entry =>
    match r.afterKeywords.count? entry.key entry.standard with
    | some n => if d.forest.hasChildren i then d.editText i (entry.apply n) else d
    | none => d

/-- The rules that a node has for its kind. -/
def kindGaps (r : SpacingRules) (d : Draft) (i : NodeId) : Draft :=
  let tail := (d.forest.tail i).toList
  match d.forest.kind i with
  | .name | .typeName | .attributeName => r.nameGaps d i
  | .lowerBound =>
    if tail.contains ':' then
      (d.fitTail i r.beforeRangeDelim leadWith).fitTail i r.afterRangeDelim endWith
    else d
  | .moduleName =>
    if tail.contains ':' then
      let d := d.fitTail i r.beforeUseDelim fun n => (Gaps.before ':' n).everywhere
      d.fitTail i r.afterUseDelim fun n => (Gaps.after ':' n).everywhere
    else d
  | .attributeSpec => d.editTail i (Gaps.declDelim r)
  | .typeSpec => (d.editTail i (Gaps.declDelim r)).fitTail i r.afterTypeDecl endWith
  | .enumeratorStmt =>
    let text := (d.forest.text i).toList
    if text.isEmpty then d
    else if text.contains ':' then d.editText i (Gaps.declDelim r)
    else d.fitText i r.afterTypeDecl endWith
  | .unitStmt _ | .endUnitStmt _ =>
    if d.forest.hasChildren i then d.fitText i r.afterProgramUnit endWith else d
  | .doVar | .var => if tail.contains '=' then equalSign d i r.beforeEqDo r.afterEqDo else d
  | .argName => if tail.contains '=' then equalSign d i r.beforeEqCall r.afterEqCall else d
  | .enumeratorName | .namedConstant =>
    if tail.contains '=' && !Gaps.hasArrow tail then
      equalSign d i r.beforeEqInit r.afterEqInit
    else d
  | .separator => r.separatorGaps d i
  | .associateName => if tail.contains '=' then r.associationGaps d i else d
  | _ => r.keywordGap d i

/-- The first round at one node. -/
def firstRound (r : SpacingRules) (d : Draft) (i : NodeId) : Draft :=
  r.kindGaps (r.punctuation d i) i

/-! ## Second round: operators, assignments and conditionals -/

/-- The blanks before (in the tail of the sibling before) and after the children of the given kind.
-/
def aroundChildren (d : Draft) (i : NodeId) (kind : Kind) (before after : Width) : Draft :=
  (withPrevious (d.forest.children i)).foldl (fun d (previous, child) =>
    if d.forest.kind child == kind then
      let d := match previous with
        | some p => d.fitTail p before endWith
        | none => d
      d.fitTail child after shiftRight
    else d) d

/-- The children of a node that have the given kind. -/
def childrenOfKind (d : Draft) (i : NodeId) (kind : Kind) : List NodeId :=
  (d.forest.children i).filter (d.forest.kind · == kind)

/-- The blanks around and inside the operators of an expression. -/
def operators (r : SpacingRules) (d : Draft) (i : NodeId) : Draft :=
  let d := aroundChildren d i .op r.beforeOp r.afterOp
  if r.inOperator then
    (childrenOfKind d i .op).foldl (fun d op =>
      (childrenOfKind d op .opSpelling).foldl (fun d part => d.editTail part strip) d) d
  else d

/-- The blanks around and inside the sign of an assignment. -/
def affectations (r : SpacingRules) (d : Draft) (i : NodeId) : Draft :=
  let d := aroundChildren d i .affectation r.beforeAffectation r.afterAffectation
  if r.inAffectation then
    (childrenOfKind d i .affectation).foldl (fun d sign => d.editText sign squeeze) d
  else d

/-- The blanks between the closing parenthesis of a one-line header, whose last part has the given
kind, and its action. -/
def actionGap (r : SpacingRules) (d : Draft) (i : NodeId) (part : Kind) : Draft :=
  match d.forest.childOfKind? i part with
  | some c => d.fitTail c r.beforeAction fun n => (Gaps.closingAtEnd n).everywhere
  | none => d

/-- The blanks after the keyword of a conditional statement. A CASE has its selector as a child; the
other keywords are followed by a parenthesis. -/
def conditionalKeyword (r : SpacingRules) (d : Draft) (i : NodeId) : Draft :=
  if d.forest.kind i == .caseStmt then
    if d.forest.hasChildren i then d.fitText i r.afterConditional endWith else d
  else d.fitText i r.afterConditional fun n => (Gaps.before '(' n).once

/-- The blanks after the keyword of a conditional statement, and before its THEN or its action. -/
def conditional (r : SpacingRules) (d : Draft) (i : NodeId) : Draft :=
  let d := r.conditionalKeyword d i
  match d.forest.kind i with
  | .ifThenStmt | .elseIfStmt =>
    match d.forest.childOfKind? i .condition with
    | some c => d.fitTail c r.beforeThen fun n => (Gaps.closingThenWord n).everywhere
    | none => d
  | .ifStmt => r.actionGap d i .condition
  | .whereStmt => r.actionGap d i .mask
  | .forallStmt => r.actionGap d i .forallTriplets
  | _ => d

/-- The second round at one node. -/
def secondRound (r : SpacingRules) (d : Draft) (i : NodeId) : Draft :=
  match d.forest.kind i with
  | .opExpr => r.operators d i
  | .assignStmt | .pointerAssignStmt => r.affectations d i
  | .ifStmt | .ifThenStmt | .elseIfStmt | .whereStmt | .whereConstructStmt | .elseWhereStmt
  | .selectCaseStmt | .caseStmt | .forallStmt | .constructStmt .forallLoop => r.conditional d i
  | _ => d

/-! ## Third round: continuation markers -/

/-- The blanks next to a marker below `parent`, given the sibling before it. The text before the
marker is the tail of that sibling, or the text of the parent. A marker that has a line to itself is
left alone. -/
def markerGap (r : SpacingRules) (d : Draft) (parent : NodeId) (previous : Option NodeId)
    (marker : NodeId) : Draft :=
  let before := match previous with
    | some p => d.forest.tail p
    | none => d.forest.text parent
  if hasNewline before.toList then
    if hasNewline (d.forest.tail marker).toList then d
    else d.fitTail marker r.afterBeginMarker leadWith
  else
    match previous with
    | some p => d.fitTail p r.beforeEndMarker endWith
    | none => d.fitText parent r.beforeEndMarker endWith

/-- The third round below one node. -/
def thirdRound (r : SpacingRules) (d : Draft) (parent : NodeId) : Draft :=
  (withPrevious (d.forest.children parent)).foldl (fun d (previous, child) =>
    if d.forest.kind child == .continuation then r.markerGap d parent previous child else d) d

/-! ## Fourth round: adjacent keywords -/

/-- Whether an entry of the adjacent keywords speaks of a node. -/
def isTarget (f : Forest) (target : KeywordTarget) (i : NodeId) : Bool :=
  match target with
  | .kind kind => f.kind i == kind
  | .intrinsicTypeName =>
    f.kind i == .typeName && (f.parent? i).any (f.kind · == .intrinsicTypeSpec)

/-- The fourth round for one entry of the table, over the given nodes. -/
def fourthRound (r : SpacingRules) (order : List NodeId) (d : Draft) (entry : AdjacentKeyword) :
    Draft :=
  match r.adjacentKeywords.count? entry.key entry.standard with
  | some n =>
    order.foldl (fun d i =>
      if isTarget d.forest entry.target i then d.editText i (entry.apply n) else d) d
  | none => d

/-! ## The pass -/

/-- Applies the rules to the whole tree. -/
def apply (r : SpacingRules) (f : Forest) : Draft :=
  let order := f.preorder
  let d : Draft := { forest := f.indexed }
  let d := order.foldl r.firstRound d
  let d := order.foldl r.secondRound d
  let d := order.foldl r.thirdRound d
  AdjacentKeyword.all.foldl (r.fourthRound order) d

end SpacingRules

/-- Sets the spacing of the whole tree, if the rules are valid. -/
def updateSpacing (r : SpacingRules) (f : Forest) : Except Fault Draft := do
  r.validate
  return r.apply f

end FortranLayout
