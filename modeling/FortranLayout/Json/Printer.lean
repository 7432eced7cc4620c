import FortranLayout.Data
import FortranLayout.Element
import FortranLayout.Text.Blank

/-!
# Writing JSON

Strings are written with the short escapes where there are some; other control characters are
written in hexadecimal and everything else as it is. Elements are written over several lines, each
level two blanks further in, and without their empty parts; data are written on one line.
-/

namespace FortranLayout

namespace Json

/-- A hexadecimal digit. -/
def hexDigit (n : Nat) : Char := Char.ofNat (if n < 10 then '0'.toNat + n else 'a'.toNat + n - 10)

/-- A character inside a string. -/
def escapeChar (c : Char) : List Char :=
  if c = '\x22' then ['\\', '\x22']
  else if c = '\\' then ['\\', '\\']
  else if c = '\x08' then ['\\', 'b']
  else if c = '\t' then ['\\', 't']
  else if c = '\n' then ['\\', 'n']
  else if c = '\x0c' then ['\\', 'f']
  else if c = '\r' then ['\\', 'r']
  else if c.toNat < 0x20 then
    ['\\', 'u', '0', '0', hexDigit (c.toNat / 16), hexDigit (c.toNat % 16)]
  else [c]

/-- A string between quotes. -/
def quote (s : String) : List Char := '\x22' :: s.toList.flatMap escapeChar ++ ['\x22']

/-! ## Elements -/

/-- A line break at the given level. -/
def newline (level : Nat) : List Char := '\n' :: Text.blanks (2 * level)

/-- A field of an object: its key and the text of its value. -/
def field (key : String) (value : List Char) : List Char := quote key ++ ':' :: ' ' :: value

/-- A string field, left out if it is empty. -/
def stringField (key s : String) : List (List Char) :=
  if s.isEmpty then [] else [field key (quote s)]

/-- Texts at the given level with a comma between them, each on a line of its own. -/
def separated (level : Nat) : List (List Char) → List Char
  | [] => []
  | [t] => newline level ++ t
  | t :: ts => newline level ++ t ++ ',' :: separated level ts

mutual

/-- An element, whose closing brace is at the given level. -/
def element (level : Nat) : Element → List Char
  | ⟨tag, text, tail, children⟩ =>
    let fields := field "tag" (quote tag) :: stringField "text" text ++ stringField "tail" tail ++
      (if children.isEmpty then []
        else [field "children"
          ('[' :: separated (level + 2) (elements (level + 2) children) ++
            newline (level + 1) ++ [']'])])
    '\x7b' :: separated (level + 1) fields ++ newline level ++ ['\x7d']

/-- The texts of elements at the given level. -/
def elements (level : Nat) : List Element → List (List Char)
  | [] => []
  | e :: es => element level e :: elements level es

end

/-- The document of an element: a text that ends with a line break. -/
def document (e : Element) : String := String.ofList (element 0 e ++ ['\n'])

/-! ## Data -/

/-- Texts with a comma between them. -/
def commas : List (List Char) → List Char
  | [] => []
  | [t] => t
  | t :: ts => t ++ ',' :: commas ts

mutual

/-- Data on one line. Numbers other than integers and unreadable strings have no text of their own
and are written as null. -/
def data : Data → List Char
  | .null | .real | .unreadable => "null".toList
  | .bool b => (if b then "true" else "false").toList
  | .integer n => (toString n).toList
  | .string s | .date s => quote s
  | .array items => '[' :: commas (dataList items) ++ [']']
  | .table fields => '\x7b' :: commas (dataFields fields) ++ ['\x7d']

/-- The texts of several data. -/
def dataList : List Data → List (List Char)
  | [] => []
  | d :: ds => data d :: dataList ds

/-- The texts of several fields. -/
def dataFields : List (String × Data) → List (List Char)
  | [] => []
  | (key, d) :: fields => (quote key ++ ':' :: data d) :: dataFields fields

end

/-- Data on one line. -/
def compact (d : Data) : String := String.ofList (data d)

end Json

end FortranLayout
