/-!
# Decimal numbers

What a text of decimal digits denotes.
-/

namespace FortranLayout.Text

/-- The number that decimal digits denote. -/
def decimalValue (digits : List Char) : Nat :=
  digits.foldl (fun n c => n * 10 + (c.toNat - '0'.toNat)) 0

/-- The number that a text of at least one digit denotes. -/
def decimal? (s : List Char) : Option Nat :=
  if !s.isEmpty && s.all Char.isDigit then some (decimalValue s) else none

/-- Whether a number fits 64 bits without a sign. -/
def fitsWord (n : Nat) : Bool := n < 0x10000000000000000

/-- Whether an integer fits 64 bits with a sign. -/
def fitsSigned (n : Int) : Bool := -0x8000000000000000 ≤ n && n < 0x8000000000000000

/-- Halfway between the largest finite double and the power of two after it: the least number that
is nearer to no finite double than to that power. -/
def doubleBound : Nat := (Nat.pow 2 54 - 1) * Nat.pow 2 970

/-- Whether digits, times ten to the power of an exponent, are too large for a double. A positive
number with 309 zeros is too large in any case, and one without a digit before the point is not. -/
def exceedsDouble (digits : List Char) : Int → Bool
  | .ofNat e => doubleBound ≤ decimalValue digits * Nat.pow 10 (Nat.min e 309)
  | .negSucc e => doubleBound * Nat.pow 10 (Nat.min (e + 1) digits.length) ≤ decimalValue digits

/-- A number that fits 64 bits, with a plus sign allowed before it. -/
def word? (s : List Char) : Option Nat :=
  let digits := match s with
    | '+' :: rest => rest
    | _ => s
  (decimal? digits).filter fitsWord

end FortranLayout.Text
