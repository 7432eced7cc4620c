/-!
# Faults

The reasons for which a request is refused. Options are checked before any pass touches a tree, so a
fault never leaves an edited tree behind.
-/

namespace FortranLayout

/-- The ways to treat continuation markers that can exclude one another. -/
inductive MarkerMode where
  | align
  | removeAll
  | addBegin
  | removeBegin
deriving DecidableEq, Repr

/-- The option that selects the mode. -/
def MarkerMode.key : MarkerMode → String
  | align => "align"
  | removeAll => "remove_all"
  | addBegin => "add_begin"
  | removeBegin => "remove_begin"

/-- The two tables of keywords. -/
inductive KeywordTable where
  | adjacent
  | after
deriving DecidableEq, Repr

/-- The option that holds the table. -/
def KeywordTable.key : KeywordTable → String
  | adjacent => "adjacent_keywords"
  | after => "after_keywords"

/-- A spacing that has a least legal value. -/
inductive SpacingKey where
  | afterProgramUnit
  | afterTypeDecl
  | keyword (table : KeywordTable) (key : String)
deriving DecidableEq, Repr

/-- The full name of the option. -/
def SpacingKey.path : SpacingKey → String
  | afterProgramUnit => "after_progunit"
  | afterTypeDecl => "after_type_decl"
  | keyword table key => table.key ++ "." ++ key

/-- Why an expression is refused. -/
inductive Obstacle where
  | signInParentheses
  | integerOverflow
  | needsParser
deriving DecidableEq, Repr

/-- The obstacle in words. -/
def Obstacle.reason : Obstacle → String
  | signInParentheses => "addition or subtraction inside parentheses"
  | integerOverflow => "integer overflow"
  | needsParser => "expression needs the parser"

/-- Why a request is refused. -/
inductive Fault where
  /-- Two marker modes that cannot be combined. -/
  | conflictingModes (first second : MarkerMode)
  /-- A spacing below its least legal value. -/
  | spacingTooSmall (key : SpacingKey) (least value : Nat)
  /-- A key outside a keyword table. -/
  | unknownKey (table : KeywordTable) (key : String)
  /-- An expression that cannot be handled here. -/
  | unsupported (obstacle : Obstacle) (text : String)
deriving DecidableEq, Repr

/-- The message shown for a fault. -/
def Fault.message : Fault → String
  | conflictingModes first second =>
    "conflicting continuation modes: " ++ first.key ++ " and " ++ second.key ++
      " cannot be used together"
  | spacingTooSmall key least value =>
    key.path ++ " must be at least " ++ Nat.repr least ++ " (is " ++ Nat.repr value ++ ")"
  | unknownKey table key => "unknown key in " ++ table.key ++ ": " ++ key
  | unsupported obstacle text => "unsupported input: " ++ obstacle.reason ++ ": " ++ text

end FortranLayout
