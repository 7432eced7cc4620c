import FortranLayout.Fault
import FortranLayout.Text.CaseMap
import FortranLayout.Text.Decimal

/-!
# Sums of terms

A sum is written as terms with signs between them. Simplifying a sum cancels opposite terms, adds up
the integers and sorts what is left; only `+` and `-` are understood, so a sign inside parentheses
is refused.

* `Sum.parse` and `Sum.render` read and write sums.
* `Sum.simplify?` fails only when the integers leave the range of 64-bit signed numbers.
* `simplifySum` is the whole operation on texts.
-/

namespace FortranLayout

/-- A signed operand. -/
structure Term where
  negative : Bool
  operand : List Char
deriving DecidableEq, Repr

namespace Term

/-- The term with the other sign. -/
def opposite (t : Term) : Term := { t with negative := !t.negative }

/-- The sign and the operand, by which terms are sorted. -/
def key (t : Term) : List Char := (if t.negative then '-' else '+') :: t.operand

/-- Whether a term may stand before another in a sorted sum. -/
def sorted (a b : Term) : Bool := !b.key.lex a.key fun x y => x < y

/-- The value of a term whose operand is a 64-bit signed integer. -/
def integer? (t : Term) : Option Int :=
  match Text.decimal? t.operand with
  | some value =>
    if Text.fitsSigned value then some (if t.negative then -(value : Int) else value) else none
  | none => none

/-- The term with the given value. -/
def ofInt (n : Int) : Term := ⟨n < 0, (Nat.repr n.natAbs).toList⟩

end Term

/-- A list of terms. -/
abbrev Sum := List Term

namespace Sum

/-! ## Reading and writing -/

/-- Whether `c` is a sign. -/
def isSign (c : Char) : Bool := c == '+' || c == '-'

/-- The term read so far, if it has an operand. -/
def termOf (negative : Bool) (operand : List Char) : Sum :=
  if operand.isEmpty then [] else [⟨negative, operand⟩]

/-- Reads terms, having read a sign and the beginning of an operand. The last of several signs in a
row counts. -/
def parseFrom (negative : Bool) (operand : List Char) : List Char → Sum
  | [] => termOf negative operand
  | c :: s =>
    if isSign c then termOf negative operand ++ parseFrom (c == '-') [] s
    else parseFrom negative (operand ++ [c]) s

/-- Reads a sum without regard to blanks, in upper case. -/
def parse (s : List Char) : Sum := parseFrom false [] (Text.toUpper (s.filter (· != ' ')))

/-- A term that follows another. -/
def renderNext (t : Term) : List Char := t.key

/-- A sum as text; the empty sum is zero. -/
def render : Sum → List Char
  | [] => ['0']
  | t :: ts => (if t.negative then t.key else t.operand) ++ ts.flatMap renderNext

/-! ## Simplification -/

/-- Adds a term to a sum in which it is cancelled by its opposite. -/
def cancel (sum : Sum) (t : Term) : Sum :=
  if t.opposite ∈ sum then sum.erase t.opposite else sum ++ [t]

/-- The sum of two integers, if it is in the range of 64-bit signed numbers. -/
def addInRange? (a b : Int) : Option Int :=
  if Text.fitsSigned (a + b) then some (a + b) else none

/-- The total of the integers of a sum, if no partial total leaves the range. -/
def total? (sum : Sum) : Option Int := (sum.filterMap Term.integer?).foldlM addInRange? 0

/-- The terms other than integers, and the total of the integers where it is not zero. -/
def collect (sum : Sum) (total : Int) : Sum :=
  sum.filter (·.integer?.isNone) ++ (if total = 0 then [] else [Term.ofInt total])

/-- Cancels opposite terms, adds up the integers and sorts the terms. -/
def simplify? (sum : Sum) : Option Sum :=
  let kept := sum.foldl cancel []
  (total? kept).map fun total => (collect kept total).mergeSort Term.sorted

/-! ## Signs inside parentheses -/

/-- Whether the text has a sign in an innermost pair of parentheses. `inside` says, after an opening
parenthesis, whether a sign has been met since. -/
def hasInnerSignFrom (inside : Option Bool) : List Char → Bool
  | [] => false
  | c :: s =>
    if c = '(' then hasInnerSignFrom (some false) s
    else if c = ')' then inside == some true || hasInnerSignFrom none s
    else hasInnerSignFrom (inside.map (· || isSign c)) s

/-- Whether the text has a sign in an innermost pair of parentheses. -/
def hasInnerSign (s : List Char) : Bool := hasInnerSignFrom none s

/-- Refuses a text with a sign in an innermost pair of parentheses. -/
def checkParentheses (s : String) : Except Fault Unit :=
  if hasInnerSign s.toList then .error (.unsupported .signInParentheses s) else .ok ()

end Sum

/-- Simplifies the sum `expr + plus - minus`, of which the last two may be absent. -/
def simplifySum (expr : String) (plus minus : Option String) : Except Fault String := do
  (expr :: plus.toList ++ minus.toList).forM Sum.checkParentheses
  let terms (s : Option String) : Sum := s.elim [] fun s => Sum.parse s.toList
  let sum := Sum.parse expr.toList ++ terms plus ++ (terms minus).map Term.opposite
  match Sum.simplify? sum with
  | some simple => return String.ofList (Sum.render simple)
  | none => throw (.unsupported .integerOverflow expr)

end FortranLayout
