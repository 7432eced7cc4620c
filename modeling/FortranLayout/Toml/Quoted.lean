import FortranLayout.Toml.Scalar

/-!
# Strings of TOML

Four kinds: between quotes with escapes, or between apostrophes as they stand; each on one line, or
over several between triple delimiters. A line break in a string is a newline, however it is
written.
-/

namespace FortranLayout

namespace Toml

/-- Whether `c` may stand in a string or comment on one line: any character but controls other than
the tab. -/
def isTextChar (c : Char) : Bool := c == '\t' || (0x20 ≤ c.toNat && c.toNat != 0x7F)

/-- The rest of the text after a line break at its start. -/
def newline? : List Char → Option (List Char)
  | '\n' :: rest => some rest
  | '\r' :: '\n' :: rest => some rest
  | _ => none

/-- Whether `c` is a blank or a tab. -/
def isSpace (c : Char) : Bool := c == ' ' || c == '\t'

/-- A text without its leading blanks and tabs. -/
def skipSpaces (s : List Char) : List Char := s.dropWhile isSpace

/-! ## Escapes -/

/-- The character of a one-letter escape. -/
def escaped? : Char → Option Char
  | 'b' => some '\x08'
  | 't' => some '\t'
  | 'n' => some '\n'
  | 'f' => some '\x0c'
  | 'r' => some '\r'
  | '\x22' => some '\x22'
  | '\\' => some '\\'
  | _ => none

/-- The character with the given hexadecimal number. -/
def hexChar? (digits : List Char) : Option Char :=
  let n := natOf 16 digits
  if digits.all (isDigitOf 16) && (n < 0xD800 || (0xE000 ≤ n && n < 0x110000)) then
    some (Char.ofNat n)
  else none

/-- Reads an escape after its backslash: the character and what follows. -/
def escape? : List Char → Option (Char × List Char)
  | 'u' :: a :: b :: c :: d :: rest => (hexChar? [a, b, c, d]).map (·, rest)
  | 'U' :: a :: b :: c :: d :: e :: f :: g :: h :: rest =>
    (hexChar? [a, b, c, d, e, f, g, h]).map (·, rest)
  | c :: rest => (escaped? c).map (·, rest)
  | [] => none

/-- A text without its leading blanks, tabs and line breaks. -/
def skipBlankLines : List Char → List Char
  | '\r' :: '\n' :: s => skipBlankLines s
  | c :: s => if isSpace c || c == '\n' then skipBlankLines s else c :: s
  | [] => []

/-- A backslash at the end of a line: what follows the line break and all blanks and line breaks
after it. -/
def lineContinuation? (s : List Char) : Option (List Char) :=
  (newline? (skipSpaces s)).map skipBlankLines

/-! ## Reading strings -/

/-- Puts a character before what has been read. -/
def andThen (c : Char) (read : Option (List Char × List Char)) : Option (List Char × List Char) :=
  read.map fun (s, rest) => (c :: s, rest)

/-- Reads a string on one line, after its opening quote. -/
def quotedWithin : Nat → List Char → Option (List Char × List Char)
  | 0, _ => none
  | _ + 1, [] => none
  | fuel + 1, c :: s =>
    if c = '\x22' then some ([], s)
    else if c = '\\' then
      match escape? s with
      | some (x, rest) => andThen x (quotedWithin fuel rest)
      | none => none
    else if isTextChar c then andThen c (quotedWithin fuel s)
    else none

/-- The end of a string between triple delimiters `q`. Up to two delimiters may stand before the
closing three. -/
def tripleEnd? (q : Char) : List Char → Option (List Char × List Char)
  | a :: b :: c :: rest =>
    if a = q && b = q && c = q then
      match rest with
      | d :: e :: more =>
        if d = q && e = q then some ([q, q], more)
        else if d = q then some ([q], e :: more)
        else some ([], rest)
      | [d] => if d = q then some ([q], []) else some ([], rest)
      | [] => some ([], [])
    else none
  | _ => none

/-- Reads a string over several lines between triple delimiters `q`, after its opening, with escapes
or without. -/
def tripleWithin (q : Char) (escapes : Bool) : Nat → List Char → Option (List Char × List Char)
  | 0, _ => none
  | _ + 1, [] => none
  | fuel + 1, c :: s =>
    match tripleEnd? q (c :: s) with
    | some found => some found
    | none =>
      match newline? (c :: s) with
      | some rest => andThen '\n' (tripleWithin q escapes fuel rest)
      | none =>
        if escapes && c = '\\' then
          match lineContinuation? s with
          | some rest => tripleWithin q escapes fuel rest
          | none =>
            match escape? s with
            | some (x, rest) => andThen x (tripleWithin q escapes fuel rest)
            | none => none
        else if isTextChar c then andThen c (tripleWithin q escapes fuel s)
        else none

/-- Reads a string between triple delimiters, after its opening. A line break directly after the
opening does not count. -/
def triple? (q : Char) (escapes : Bool) (s : List Char) : Option (List Char × List Char) :=
  tripleWithin q escapes (s.length + 1) ((newline? s).getD s)

/-- Reads a string between apostrophes on one line, after its opening. -/
def literal? (s : List Char) : Option (List Char × List Char) :=
  let text := s.takeWhile fun c => isTextChar c && c != '\x27'
  match s.dropWhile fun c => isTextChar c && c != '\x27' with
  | '\x27' :: rest => some (text, rest)
  | _ => none

/-- Reads a string on one line, if the text starts with one. -/
def lineString? : List Char → Option (List Char × List Char)
  | '\x22' :: s => quotedWithin (s.length + 1) s
  | '\x27' :: s => literal? s
  | _ => none

/-- Reads a string of any kind, if the text starts with one. -/
def string? : List Char → Option (List Char × List Char)
  | '\x22' :: '\x22' :: '\x22' :: s => triple? '\x22' true s
  | '\x27' :: '\x27' :: '\x27' :: s => triple? '\x27' false s
  | s => lineString? s

end Toml

end FortranLayout
