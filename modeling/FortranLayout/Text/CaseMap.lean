import FortranLayout.Text.CaseTable
import FortranLayout.Text.Membership

/-!
# Upper and lower case

The full case maps of text. A letter may turn into several characters (`ß` becomes `SS`), and a
capital sigma takes its final form at the end of a word.
-/

namespace FortranLayout.Text

/-- The partner of `n` in the first run that covers it, or `n` itself. -/
def partner (runs : List CaseRun) (n : Nat) : Nat :=
  match runs.find? (·.covers n) with
  | some run => (n + run.offset : Int).toNat
  | none => n

/-- The characters that `c` becomes, from a list of longer spellings and a list of runs. -/
def mapChar (spellings : List (Nat × List Nat)) (runs : List CaseRun) (c : Char) : List Char :=
  match spellings.lookup c.toNat with
  | some codes => codes.map Char.ofNat
  | none => [Char.ofNat (partner runs c.toNat)]

/-- The upper-case form of a character. -/
def upperChar (c : Char) : List Char :=
  if c.toNat < 0x80 then [c.toUpper] else mapChar upperSpellings upperRuns c

/-- The lower-case form of a character that stands alone. -/
def lowerChar (c : Char) : List Char :=
  if c.toNat < 0x80 then [c.toLower] else mapChar lowerSpellings lowerRuns c

/-- Whether, once the characters that case contexts look through are skipped, a cased letter
follows. -/
def casedNext (s : List Char) : Bool :=
  match s.dropWhile (listed caseIgnorableBoundaries) with
  | c :: _ => listed casedBoundaries c
  | [] => false

/-- `s` in upper case. -/
def toUpper (s : List Char) : List Char :=
  s.flatMap upperChar

/-- The lower-case form of `s`, of which `before` (nearest character first) precedes it. A capital
sigma is final when a cased letter comes before it and none comes after it. -/
def lowerAfter (before : List Char) : List Char → List Char
  | [] => []
  | c :: rest =>
    (if c = 'Σ' then (if casedNext before && !casedNext rest then ['ς'] else ['σ'])
      else lowerChar c) ++ lowerAfter (c :: before) rest

/-- `s` in lower case. -/
def toLower (s : List Char) : List Char :=
  lowerAfter [] s

end FortranLayout.Text
