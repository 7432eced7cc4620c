import FortranLayout.Data
import FortranLayout.Text.Decimal

/-!
# Numbers, dates and words of TOML

A scalar without quotes is cut off as a whole and then classified: a truth value, an integer,
another number, a date or a time.
-/

namespace FortranLayout

namespace Toml

/-! ## Digits -/

/-- The digits of a number, in which single underscores may stand between two digits. -/
def ungroup? (isDigit : Char → Bool) : List Char → Option (List Char)
  | [] => none
  | [c] => if isDigit c then some [c] else none
  | c :: '_' :: rest => if isDigit c then (ungroup? isDigit rest).map (c :: ·) else none
  | c :: rest => if isDigit c then (ungroup? isDigit rest).map (c :: ·) else none

/-- The value of a digit in any base up to sixteen. -/
def digitValue (c : Char) : Nat :=
  if c.isDigit then c.toNat - '0'.toNat
  else if c.isLower then c.toNat - 'a'.toNat + 10
  else c.toNat - 'A'.toNat + 10

/-- The number that digits denote in a base. -/
def natOf (base : Nat) (digits : List Char) : Nat :=
  digits.foldl (fun n c => n * base + digitValue c) 0

/-- Whether `c` is a digit of the given base. -/
def isDigitOf (base : Nat) (c : Char) : Bool := c.isAlphanum && digitValue c < base

/-! ## Numbers -/

/-- A signed integer, if it fits 64 bits. -/
def integerOf? (negative : Bool) (magnitude : Nat) : Option Data :=
  let n : Int := if negative then -(magnitude : Int) else magnitude
  if Text.fitsSigned n then some (.integer n) else none

/-- The digits of the whole part of a decimal number, which has no leading zeros. -/
def wholePart? (s : List Char) : Option (List Char) :=
  match ungroup? Char.isDigit s with
  | some ('0' :: _ :: _) => none
  | digits => digits

/-- An integer with a sign or without, in which zeros may lead. -/
def signed? : List Char → Option Int
  | '+' :: s => (ungroup? Char.isDigit s).map fun digits => natOf 10 digits
  | '-' :: s => (ungroup? Char.isDigit s).map fun digits => -(natOf 10 digits : Int)
  | s => (ungroup? Char.isDigit s).map fun digits => natOf 10 digits

/-- The exponent of a decimal number. -/
def exponent? : List Char → Option Int
  | c :: s => if c == 'e' || c == 'E' then signed? s else none
  | [] => none

/-- Whether `c` is a decimal digit or an underscore. -/
def isDigitOrUnderscore (c : Char) : Bool := c.isDigit || c == '_'

/-- The digits of a fraction and its exponent, of which one may be missing. -/
def fraction? : List Char → Option (List Char × Int)
  | '.' :: s =>
    (ungroup? Char.isDigit (s.takeWhile isDigitOrUnderscore)).bind fun digits =>
      match s.dropWhile isDigitOrUnderscore with
      | [] => some (digits, 0)
      | rest => (exponent? rest).map fun e => (digits, e)
  | s => (exponent? s).map fun e => ([], e)

/-- A decimal number without its sign. One that is no integer and too large for a double is refused,
but below zero it is taken. -/
def decimal? (negative : Bool) (s : List Char) : Option Data :=
  if s = "inf".toList || s = "nan".toList then some .real
  else do
    let whole ← wholePart? (s.takeWhile isDigitOrUnderscore)
    let rest := s.dropWhile isDigitOrUnderscore
    if rest.isEmpty then integerOf? negative (natOf 10 whole)
    else
      let (fraction, exponent) ← fraction? rest
      if !negative && Text.exceedsDouble (whole ++ fraction) (exponent - fraction.length) then none
      else some .real

/-- An integer in the given base. -/
def basedInteger? (base : Nat) (s : List Char) : Option Data :=
  (ungroup? (isDigitOf base) s).bind fun digits => integerOf? false (natOf base digits)

/-- A number. -/
def number? : List Char → Option Data
  | '0' :: 'x' :: s => basedInteger? 16 s
  | '0' :: 'o' :: s => basedInteger? 8 s
  | '0' :: 'b' :: s => basedInteger? 2 s
  | '+' :: s => decimal? false s
  | '-' :: s => decimal? true s
  | s => decimal? false s

/-! ## Dates and times -/

/-- Two digits with a value in the given range. -/
def twoDigits? (least most : Nat) (a b : Char) : Option Nat :=
  let n := natOf 10 [a, b]
  if a.isDigit && b.isDigit && least ≤ n && n ≤ most then some n else none

/-- The number of days of a month. -/
def daysIn (year month : Nat) : Nat :=
  if month = 2 then
    if year % 4 = 0 && (year % 100 != 0 || year % 400 = 0) then 29 else 28
  else if month = 4 || month = 6 || month = 9 || month = 11 then 30
  else 31

/-- A date at the start of a text: its standard spelling and what follows. -/
def date? : List Char → Option (List Char × List Char)
  | a :: b :: c :: d :: '-' :: m :: n :: '-' :: x :: y :: rest => do
    if !([a, b, c, d].all Char.isDigit) then none
    let month ← twoDigits? 1 12 m n
    let _ ← twoDigits? 1 (daysIn (natOf 10 [a, b, c, d]) month) x y
    some ([a, b, c, d, '-', m, n, '-', x, y], rest)
  | _ => none

/-- The standard spelling of a fraction of a second: at most nine digits, without trailing zeros. -/
def fractionOf (digits : List Char) : List Char :=
  let kept := ((digits.take 9).reverse.dropWhile (· == '0')).reverse
  if kept.isEmpty then [] else '.' :: kept

/-- A time at the start of a text: its standard spelling and what follows. -/
def time? : List Char → Option (List Char × List Char)
  | h :: i :: ':' :: m :: n :: ':' :: s :: t :: rest => do
    let _ ← twoDigits? 0 23 h i
    let _ ← twoDigits? 0 59 m n
    let _ ← twoDigits? 0 60 s t
    let clock := [h, i, ':', m, n, ':', s, t]
    match rest with
    | '.' :: fraction =>
      let digits := fraction.takeWhile Char.isDigit
      if digits.isEmpty then none
      else some (clock ++ fractionOf digits, fraction.dropWhile Char.isDigit)
    | _ => some (clock, rest)
  | _ => none

/-- The standard spelling of an offset from universal time, if the text is one or empty. -/
def offset? : List Char → Option (List Char)
  | [] => some []
  | ['Z'] | ['z'] => some ['Z']
  | [sign, h, i, ':', m, n] => do
    if sign != '+' && sign != '-' then none
    let hours ← twoDigits? 0 23 h i
    let minutes ← twoDigits? 0 59 m n
    let sign := if hours = 0 && minutes = 0 then '+' else sign
    some [sign, h, i, ':', m, n]
  | _ => none

/-- Whether `c` can stand between a date and a time. -/
def isDateDelimiter (c : Char) : Bool := c == 'T' || c == 't' || c == ' '

/-- A date, a time, or a date with a time and perhaps an offset. -/
def dateTime? (s : List Char) : Option Data :=
  match date? s with
  | some (date, []) => some (.date (String.ofList date))
  | some (date, c :: rest) => do
    if !isDateDelimiter c then none
    let (time, rest) ← time? rest
    let offset ← offset? rest
    some (.date (String.ofList (date ++ 'T' :: time ++ offset)))
  | none =>
    match time? s with
    | some (time, []) => some (.date (String.ofList time))
    | _ => none

/-! ## Scalars -/

/-- Whether `c` can be part of a scalar without quotes. -/
def isScalarChar (c : Char) : Bool :=
  c.isAlphanum || c == '_' || c == '+' || c == '-' || c == '.' || c == ':'

/-- Cuts off a scalar: a run of its characters, and for a date also the time after a blank. -/
def cutScalar (s : List Char) : List Char × List Char :=
  let run := s.takeWhile isScalarChar
  let rest := s.dropWhile isScalarChar
  match date? run, rest with
  | some (_, []), ' ' :: c :: more =>
    if c.isDigit then
      (run ++ ' ' :: (c :: more).takeWhile isScalarChar, (c :: more).dropWhile isScalarChar)
    else (run, rest)
  | _, _ => (run, rest)

/-- The value of a scalar. -/
def scalarOf? (s : List Char) : Option Data :=
  if s = "true".toList then some (.bool true)
  else if s = "false".toList then some (.bool false)
  else
    match dateTime? s with
    | some d => some d
    | none => number? s

/-- Reads a scalar: its value and what follows. -/
def scalar? (s : List Char) : Option (Data × List Char) :=
  let (text, rest) := cutScalar s
  (scalarOf? text).map fun d => (d, rest)

end Toml

end FortranLayout
