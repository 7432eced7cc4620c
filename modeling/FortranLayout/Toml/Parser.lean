import FortranLayout.Toml.Quoted
import FortranLayout.Toml.Table

/-!
# Reading TOML

A document is a sequence of lines: headers, keys with their values, comments. `Toml.parse` gives the
table that the document denotes.
-/

namespace FortranLayout

namespace Toml

/-! ## Comments and line ends -/

/-- The rest of the text after a comment at its start, if there is one. A comment may not hold
control characters. -/
def skipComment? : List Char → Option (List Char)
  | '#' :: s =>
    let rest := s.dropWhile isTextChar
    if rest.isEmpty || (newline? rest).isSome then some rest else none
  | s => some s

/-- The rest of the text after the end of a line: blanks, perhaps a comment, and a line break or the
end of the text. -/
def lineEnd? (s : List Char) : Option (List Char) :=
  (skipComment? (skipSpaces s)).bind fun rest =>
    if rest.isEmpty then some [] else newline? rest

/-- Skips blanks, comments and line breaks. -/
def skipLinesWithin : Nat → List Char → Option (List Char)
  | 0, s => some s
  | fuel + 1, s =>
    match skipComment? (skipSpaces s) with
    | none => none
    | some rest =>
      match newline? rest with
      | some rest => skipLinesWithin fuel rest
      | none => some rest

/-- Skips blanks, comments and line breaks. -/
def skipLines? (s : List Char) : Option (List Char) := skipLinesWithin (s.length + 1) s

/-! ## Keys -/

/-- How deep arrays and inline tables may be nested, and of how many parts a key may consist. -/
def levelLimit : Nat := 79

/-- Whether `c` can be part of a key without quotes. -/
def isKeyChar (c : Char) : Bool := c.isAlphanum || c == '_' || c == '-'

/-- Reads one part of a key. -/
def keyPart? (s : List Char) : Option (String × List Char) :=
  let word := s.takeWhile isKeyChar
  if word.isEmpty then (lineString? s).map fun (text, rest) => (String.ofList text, rest)
  else some (String.ofList word, s.dropWhile isKeyChar)

/-- Reads a key, the parts of which are divided by dots. -/
def keyWithin : Nat → List Char → Option (List String × List Char)
  | 0, _ => none
  | fuel + 1, s =>
    match keyPart? (skipSpaces s) with
    | none => none
    | some (part, rest) =>
      match skipSpaces rest with
      | '.' :: more => (keyWithin fuel more).map fun (parts, rest) => (part :: parts, rest)
      | rest => some ([part], rest)

/-- Reads a key and the blanks around it. -/
def key? (s : List Char) : Option (List String × List Char) :=
  (keyWithin (s.length + 1) s).filter fun (parts, _) => parts.length ≤ levelLimit

/-! ## Values -/

mutual

/-- Reads a value: the value and what follows. `levels` more arrays and tables may be nested in it.
-/
def valueWithin (levels : Nat) : Nat → List Char → Option (Data × List Char)
  | 0, _ => none
  | fuel + 1, s =>
    match s with
    | '[' :: rest => if levels = 0 then none else itemsWithin (levels - 1) fuel [] rest
    | '\x7b' :: rest =>
      if levels = 0 then none
      else
        match skipSpaces rest with
        | '\x7d' :: rest => some (.table [], rest)
        | _ => fieldsWithin (levels - 1) fuel [] rest
    | _ =>
      match string? s with
      | some (text, rest) => some (.string (String.ofList text), rest)
      | none => scalar? s

/-- Reads the items of an array after those already read, which are kept in reverse, and its end. -/
def itemsWithin (levels : Nat) : Nat → List Data → List Char → Option (Data × List Char)
  | 0, _, _ => none
  | fuel + 1, read, s =>
    match skipLines? s with
    | none => none
    | some (']' :: rest) => some (.array read.reverse, rest)
    | some s =>
      match valueWithin levels fuel s with
      | none => none
      | some (d, rest) =>
        match skipLines? rest with
        | some (',' :: rest) => itemsWithin levels fuel (d :: read) rest
        | some (']' :: rest) => some (.array (d :: read).reverse, rest)
        | _ => none

/-- Reads the fields of an inline table after those already read, and its end. -/
def fieldsWithin (levels : Nat) : Nat → Entries → List Char → Option (Data × List Char)
  | 0, _, _ => none
  | fuel + 1, read, s =>
    match key? s with
    | some (key, '=' :: rest) =>
      match valueWithin levels fuel (skipSpaces rest) with
      | none => none
      | some (d, rest) =>
        match defineKey key d .header read with
        | none => none
        | some read =>
          match skipSpaces rest with
          | ',' :: rest => fieldsWithin levels fuel read rest
          | '\x7d' :: rest => some (.table (entriesToData read), rest)
          | _ => none
    | _ => none

end

/-- Reads a value: the value and what follows. Each character starts at most two nested readings. -/
def value? (s : List Char) : Option (Data × List Char) :=
  valueWithin levelLimit (2 * s.length + 2) s

/-! ## Documents -/

/-- A document being read: all tables, and the path of the one whose lines are being read. -/
structure Reader where
  root : Entries := []
  path : List String := []

/-- Takes in a key and its value in the current table. -/
def Reader.define (r : Reader) (key : List String) (d : Data) : Option Reader :=
  (changeAt .mentioned (defineKey key d) r.path .header r.root).map fun root =>
    { r with root := root }

/-- Reads the header of a table, after its opening bracket. -/
def header? (r : Reader) (s : List Char) : Option (Reader × List Char) := do
  match s with
  | '[' :: s =>
    match key? s with
    | some (path, ']' :: ']' :: rest) =>
      let root ← openArrayTable path r.root
      some ({ root := root, path := path }, rest)
    | _ => none
  | _ =>
    match key? s with
    | some (path, ']' :: rest) =>
      let root ← openTable path r.root
      some ({ root := root, path := path }, rest)
    | _ => none

/-- Reads what stands on a line before its end. -/
def line? (r : Reader) (s : List Char) : Option (Reader × List Char) :=
  match skipSpaces s with
  | [] => some (r, [])
  | '#' :: rest => some (r, '#' :: rest)
  | '[' :: rest => header? r rest
  | s =>
    if (newline? s).isSome then some (r, s)
    else
      match key? s with
      | some (key, '=' :: rest) => do
        let (d, rest) ← value? (skipSpaces rest)
        let r ← r.define key d
        some (r, rest)
      | _ => none

/-- Reads lines up to the end of the text. -/
def linesWithin : Nat → Reader → List Char → Option Reader
  | 0, r, _ => some r
  | fuel + 1, r, s =>
    if s.isEmpty then some r
    else
      match line? r s with
      | none => none
      | some (r, rest) =>
        match lineEnd? rest with
        | none => none
        | some rest => linesWithin fuel r rest

/-- The fields of the table that a document denotes. A mark of the byte order at its start does not
count. -/
def parse (text : String) : Option (List (String × Data)) :=
  let s := match text.toList with
    | '\uFEFF' :: s => s
    | s => s
  (linesWithin (s.length + 1) {} s).map fun r => entriesToData r.root

end Toml

end FortranLayout
