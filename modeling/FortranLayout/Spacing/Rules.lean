import FortranLayout.Fault
import FortranLayout.Spacing.Keywords

/-!
# Spacing rules

The settings of the spacing pass. Each width is a number of blanks to write or the instruction to
keep what is there.

* `SpacingRules.validate` refuses widths below their least legal value and unknown keywords.
* `SpacingRules.keepAll` has every rule off.
-/

namespace FortranLayout

/-- How wide a gap is to be. -/
inductive Width where
  /-- As it is. -/
  | keep
  /-- Exactly `n` blanks. -/
  | exactly (n : Nat)
deriving DecidableEq, Repr, Inhabited

/-- The number of blanks, unless the gap is kept. -/
def Width.count? : Width → Option Nat
  | keep => none
  | exactly n => some n

/-- The widths that are set for the keywords of a table. -/
structure KeywordWidths where
  /-- Whether the table is applied at all. -/
  enabled : Bool := true
  /-- The widths that differ from the standard ones, in the order of their keys. -/
  overrides : List (String × Width) := []
deriving DecidableEq, Repr

/-- The number of blanks for the keyword with the given key, if the gap is to be set. -/
def KeywordWidths.count? (w : KeywordWidths) (key : String) (standard : Nat) : Option Nat :=
  if w.enabled then
    match w.overrides.lookup key with
    | some width => width.count?
    | none => some standard
  else none

/-- The settings of the spacing pass. -/
structure SpacingRules where
  beforeOp : Width := .exactly 1
  afterOp : Width := .exactly 1
  /-- Squeeze the blanks inside operators such as `. AND .`. -/
  inOperator : Bool := true
  beforeComma : Width := .exactly 0
  afterComma : Width := .exactly 1
  beforeParenthesis : Width := .exactly 0
  afterParenthesis : Width := .exactly 0
  /-- Around `=` in assignments and `=>` in associations. -/
  beforeAffectation : Width := .exactly 1
  afterAffectation : Width := .exactly 1
  /-- Squeeze the blanks inside `=` and `= >`. -/
  inAffectation : Bool := true
  /-- Around `:` in array bounds. -/
  beforeRangeDelim : Width := .exactly 0
  afterRangeDelim : Width := .exactly 0
  /-- Around `:` in USE statements. -/
  beforeUseDelim : Width := .exactly 0
  afterUseDelim : Width := .exactly 1
  /-- Around `::` in declarations and enumerators. -/
  beforeDeclDelim : Width := .exactly 1
  afterDeclDelim : Width := .exactly 1
  /-- Write `: :` as `::`. -/
  inDeclDelim : Bool := true
  /-- After the type of a declaration without `::`; at least one blank. -/
  afterTypeDecl : Width := .exactly 1
  /-- Around `=` in DO and FORALL headers. -/
  beforeEqDo : Width := .exactly 0
  afterEqDo : Width := .exactly 0
  /-- Around `=` of keyword arguments. -/
  beforeEqCall : Width := .exactly 0
  afterEqCall : Width := .exactly 0
  /-- Around `=` of initial values. -/
  beforeEqInit : Width := .exactly 0
  afterEqInit : Width := .exactly 0
  /-- Before a marker at the end of a line. -/
  beforeEndMarker : Width := .exactly 1
  /-- After a marker at the beginning of a line. -/
  afterBeginMarker : Width := .exactly 1
  /-- After IF, ELSE IF, WHERE, ELSEWHERE, SELECT CASE, CASE and FORALL. -/
  afterConditional : Width := .exactly 1
  beforeThen : Width := .exactly 1
  /-- Between the condition of a one-line IF, WHERE or FORALL and its action. -/
  beforeAction : Width := .exactly 1
  /-- Between the keyword of a program unit and its name; at least one blank. -/
  afterProgramUnit : Width := .exactly 1
  /-- Strip the blanks at line ends. -/
  endOfLine : Bool := true
  /-- After identifiers, type names and attribute names. -/
  afterName : Width := .exactly 0
  /-- Strip the blanks inside names. -/
  inName : Bool := true
  /-- Around `;`. -/
  beforeSeparator : Width := .exactly 0
  afterSeparator : Width := .exactly 1
  /-- Replace each tab in a tail by two blanks. -/
  expandTabs : Bool := true
  adjacentKeywords : KeywordWidths := {}
  afterKeywords : KeywordWidths := {}
deriving DecidableEq, Repr

namespace SpacingRules

/-- Every rule off: the pass changes nothing. -/
def keepAll : SpacingRules where
  beforeOp := .keep
  afterOp := .keep
  inOperator := false
  beforeComma := .keep
  afterComma := .keep
  beforeParenthesis := .keep
  afterParenthesis := .keep
  beforeAffectation := .keep
  afterAffectation := .keep
  inAffectation := false
  beforeRangeDelim := .keep
  afterRangeDelim := .keep
  beforeUseDelim := .keep
  afterUseDelim := .keep
  beforeDeclDelim := .keep
  afterDeclDelim := .keep
  inDeclDelim := false
  afterTypeDecl := .keep
  beforeEqDo := .keep
  afterEqDo := .keep
  beforeEqCall := .keep
  afterEqCall := .keep
  beforeEqInit := .keep
  afterEqInit := .keep
  beforeEndMarker := .keep
  afterBeginMarker := .keep
  afterConditional := .keep
  beforeThen := .keep
  beforeAction := .keep
  afterProgramUnit := .keep
  endOfLine := false
  afterName := .keep
  inName := false
  beforeSeparator := .keep
  afterSeparator := .keep
  expandTabs := false
  adjacentKeywords := { enabled := false }
  afterKeywords := { enabled := false }

/-- Refuses a width below `least`. -/
def checkLeast (key : SpacingKey) (width : Width) (least : Nat) : Except Fault Unit :=
  match width with
  | .exactly n => if n < least then .error (.spacingTooSmall key least n) else .ok ()
  | .keep => .ok ()

/-- Checks the overrides of a keyword table, given the least width of each of its keys. A key
outside the table is refused even when the table is not applied; its widths are then of no matter.
-/
def checkOverrides (table : KeywordTable) (least? : String → Option Nat) (w : KeywordWidths) :
    Except Fault Unit :=
  w.overrides.forM fun (key, width) =>
    match least? key with
    | none => .error (.unknownKey table key)
    | some least =>
      if w.enabled then checkLeast (.keyword table key) width least else .ok ()

/-- Checks the widths that have a least legal value, and the keys of the two tables. -/
def validate (r : SpacingRules) : Except Fault Unit := do
  checkLeast .afterProgramUnit r.afterProgramUnit 1
  checkLeast .afterTypeDecl r.afterTypeDecl 1
  checkOverrides .adjacent (fun key => (AdjacentKeyword.find? key).map (·.least))
    r.adjacentKeywords
  checkOverrides .after (fun key => (AfterKeyword.find? key).map (·.least)) r.afterKeywords

end SpacingRules

end FortranLayout
