/-!
# Blanks

A blank is the character U+0020. Spacing is written as a number of blanks; this module has the runs
of blanks and the operations that strip and pad a text with them.

* `squeeze` deletes every blank. What it leaves is what spacing may not touch, so each operation
  comes with its `squeeze_` equation.
-/

namespace FortranLayout.Text

/-- Whether `c` is the blank. -/
def isBlank (c : Char) : Bool := c == ' '

/-- `n` blanks. -/
def blanks (n : Nat) : List Char := List.replicate n ' '

/-- A line break and `n` blanks. -/
def lineBreak (n : Nat) : String := String.ofList ('\n' :: blanks n)

/-- `s` without its blanks. -/
def squeeze (s : List Char) : List Char := s.filter (!isBlank ·)

/-- `s` without its leading blanks. -/
def stripLeft (s : List Char) : List Char := s.dropWhile isBlank

/-- `s` without its trailing blanks. -/
def stripRight (s : List Char) : List Char := (s.reverse.dropWhile isBlank).reverse

/-- `s` without the blanks at its two ends. -/
def strip (s : List Char) : List Char := stripRight (stripLeft s)

/-- `s` led by exactly `n` blanks. -/
def leadWith (n : Nat) (s : List Char) : List Char := blanks n ++ stripLeft s

/-- `s` ended by exactly `n` blanks. -/
def endWith (n : Nat) (s : List Char) : List Char := stripRight s ++ blanks n

/-- `s` without its leading blanks, and `n` blanks after it. -/
def shiftRight (n : Nat) (s : List Char) : List Char := stripLeft s ++ blanks n

/-- `s` with each tab replaced by two blanks. -/
def expandTabs (s : List Char) : List Char :=
  s.flatMap fun c => if c = '\t' then blanks 2 else [c]

/-- Whether `s` has a newline. -/
def hasNewline (s : List Char) : Bool := s.contains '\n'

@[simp] theorem isBlank_blank : isBlank ' ' = true := rfl

theorem isBlank_of_mem_blanks {n : Nat} {c : Char} (h : c ∈ blanks n) : isBlank c = true := by
  rw [List.eq_of_mem_replicate h]
  rfl

@[simp] theorem squeeze_nil : squeeze [] = [] := rfl

@[simp] theorem squeeze_append (s t : List Char) : squeeze (s ++ t) = squeeze s ++ squeeze t := by
  simp [squeeze]

@[simp] theorem squeeze_blanks (n : Nat) : squeeze (blanks n) = [] := by
  simp [squeeze, blanks, isBlank]

@[simp] theorem squeeze_stripLeft (s : List Char) : squeeze (stripLeft s) = squeeze s := by
  induction s with
  | nil => rfl
  | cons c s ih =>
    by_cases hc : isBlank c = true <;> simp_all [stripLeft, squeeze]

theorem squeeze_reverse (s : List Char) : squeeze s.reverse = (squeeze s).reverse := by
  simp [squeeze]

@[simp] theorem squeeze_stripRight (s : List Char) : squeeze (stripRight s) = squeeze s := by
  have h := squeeze_stripLeft s.reverse
  simp only [stripLeft] at h
  simp [stripRight, squeeze_reverse, h]

@[simp] theorem squeeze_strip (s : List Char) : squeeze (strip s) = squeeze s := by
  simp [strip]

@[simp] theorem squeeze_leadWith (n : Nat) (s : List Char) :
    squeeze (leadWith n s) = squeeze s := by
  simp [leadWith]

@[simp] theorem squeeze_endWith (n : Nat) (s : List Char) : squeeze (endWith n s) = squeeze s := by
  simp [endWith]

@[simp] theorem squeeze_shiftRight (n : Nat) (s : List Char) :
    squeeze (shiftRight n s) = squeeze s := by
  simp [shiftRight]

end FortranLayout.Text
