import FortranLayout.Data
import FortranLayout.Text.Decimal

/-!
# Tokens of JSON

A machine reads the text one character at a time and emits tokens. Numbers and words are collected
up to the first character that cannot belong to them and then checked against their grammar.
-/

namespace FortranLayout

namespace Json

/-- A token of JSON. -/
inductive Token where
  | openObject
  | closeObject
  | openArray
  | closeArray
  | colon
  | comma
  /-- A string; none if its escapes do not form Unicode text. -/
  | string (s : Option String)
  /-- A number or one of the words `true`, `false` and `null`. -/
  | scalar (d : Data)
deriving Repr, Inhabited

/-! ## Strings -/

/-- The text that code units denote: a high and a low surrogate side by side are one character, and
a surrogate without its partner is none. -/
def decodeUnits : List Nat → Option (List Char)
  | [] => some []
  | u :: units =>
    if 0xD800 ≤ u && u < 0xDC00 then
      match units with
      | v :: rest =>
        if 0xDC00 ≤ v && v < 0xE000 then
          (decodeUnits rest).map
            (Char.ofNat (0x10000 + (u - 0xD800) * 0x400 + (v - 0xDC00)) :: ·)
        else none
      | [] => none
    else if 0xDC00 ≤ u && u < 0xE000 then none
    else (decodeUnits units).map (Char.ofNat u :: ·)

/-- The code unit of a one-letter escape. -/
def escaped? : Char → Option Nat
  | '\x22' => some 0x22
  | '\\' => some 0x5C
  | '/' => some 0x2F
  | 'b' => some 0x08
  | 'f' => some 0x0C
  | 'n' => some 0x0A
  | 'r' => some 0x0D
  | 't' => some 0x09
  | _ => none

/-- The value of a hexadecimal digit. -/
def hexDigit? (c : Char) : Option Nat :=
  if c.isDigit then some (c.toNat - '0'.toNat)
  else if 'a' ≤ c && c ≤ 'f' then some (c.toNat - 'a'.toNat + 10)
  else if 'A' ≤ c && c ≤ 'F' then some (c.toNat - 'A'.toNat + 10)
  else none

/-! ## Numbers and words -/

/-- Whether the text is empty or an exponent. -/
def isExponent : List Char → Bool
  | [] => true
  | c :: s =>
    let digits := match s with
      | '+' :: rest => rest
      | '-' :: rest => rest
      | _ => s
    (c == 'e' || c == 'E') && !digits.isEmpty && digits.all Char.isDigit

/-- Whether the text is empty, or a fraction and an exponent. -/
def isFraction (s : List Char) : Bool :=
  match s with
  | '.' :: rest =>
    !(rest.takeWhile Char.isDigit).isEmpty && isExponent (rest.dropWhile Char.isDigit)
  | _ => isExponent s

/-- The number that a text without a sign denotes. -/
def unsigned? (negative : Bool) (s : List Char) : Option Data :=
  let whole := s.takeWhile Char.isDigit
  let rest := s.dropWhile Char.isDigit
  if whole.isEmpty || (whole.head? == some '0' && whole.length != 1) || !isFraction rest then none
  else if !rest.isEmpty then some .real
  else if !negative then some (.integer (Text.decimalValue whole))
  else if Text.decimalValue whole = 0 then some .real
  else some (.integer (-(Text.decimalValue whole : Int)))

/-- The number that a text denotes. A zero with a minus sign is no integer. -/
def number? : List Char → Option Data
  | '-' :: s => unsigned? true s
  | s => unsigned? false s

/-- The value that a word denotes. -/
def word? (s : List Char) : Option Data :=
  if s = "true".toList then some (.bool true)
  else if s = "false".toList then some (.bool false)
  else if s = "null".toList then some .null
  else none

/-! ## The machine -/

/-- Where the machine stands. What has been collected is kept in reverse. -/
inductive LexState where
  | between
  | inString (units : List Nat)
  /-- After a backslash. -/
  | inEscape (units : List Nat)
  /-- In a hexadecimal escape of which `count` digits have been read. -/
  | inHex (units : List Nat) (value count : Nat)
  | inNumber (read : List Char)
  | inWord (read : List Char)

/-- Whether `c` can be part of a number. -/
def isNumberChar (c : Char) : Bool :=
  c.isDigit || c == '+' || c == '-' || c == '.' || c == 'e' || c == 'E'

/-- One step between tokens. -/
def stepBetween (c : Char) : Option (LexState × List Token) :=
  if c = ' ' || c = '\n' || c = '\t' || c = '\r' then some (.between, [])
  else if c = '\x7b' then some (.between, [.openObject])
  else if c = '\x7d' then some (.between, [.closeObject])
  else if c = '[' then some (.between, [.openArray])
  else if c = ']' then some (.between, [.closeArray])
  else if c = ':' then some (.between, [.colon])
  else if c = ',' then some (.between, [.comma])
  else if c = '\x22' then some (.inString [], [])
  else if c.isDigit || c = '-' then some (.inNumber [c], [])
  else if c.isLower then some (.inWord [c], [])
  else none

/-- The token of a finished number. -/
def numberToken (read : List Char) : Option (List Token) :=
  (number? read.reverse).map fun d => [.scalar d]

/-- The token of a finished word. -/
def wordToken (read : List Char) : Option (List Token) :=
  (word? read.reverse).map fun d => [.scalar d]

/-- The token of a finished string. -/
def stringToken (units : List Nat) : Token :=
  .string ((decodeUnits units.reverse).map String.ofList)

/-- A step of the machine: the next state and the tokens that are complete. -/
def step (state : LexState) (c : Char) : Option (LexState × List Token) :=
  match state with
  | .between => stepBetween c
  | .inString units =>
    if c = '\x22' then some (.between, [stringToken units])
    else if c = '\\' then some (.inEscape units, [])
    else if c.toNat < 0x20 then none
    else some (.inString (c.toNat :: units), [])
  | .inEscape units =>
    if c = 'u' then some (.inHex units 0 0, [])
    else (escaped? c).map fun u => (.inString (u :: units), [])
  | .inHex units value count =>
    (hexDigit? c).map fun d =>
      if count = 3 then (.inString ((value * 16 + d) :: units), [])
      else (.inHex units (value * 16 + d) (count + 1), [])
  | .inNumber read =>
    if isNumberChar c then some (.inNumber (c :: read), [])
    else do
      let token ← numberToken read
      let (state, tokens) ← stepBetween c
      return (state, token ++ tokens)
  | .inWord read =>
    if c.isLower then some (.inWord (c :: read), [])
    else do
      let token ← wordToken read
      let (state, tokens) ← stepBetween c
      return (state, token ++ tokens)

/-- The tokens that are complete at the end of the text. -/
def finish : LexState → Option (List Token)
  | .between => some []
  | .inNumber read => numberToken read
  | .inWord read => wordToken read
  | _ => none

/-- The tokens of a text, from a state of the machine on. -/
def lexFrom (state : LexState) : List Char → Option (List Token)
  | [] => finish state
  | c :: s =>
    match step state c with
    | some (next, tokens) => (lexFrom next s).map (tokens ++ ·)
    | none => none

/-- The tokens of a text. -/
def lex (s : List Char) : Option (List Token) := lexFrom .between s

end Json

end FortranLayout
