import FortranLayout.Text.Membership

/-!
# White space

The characters with the property White_Space, and the removal of leading and trailing white space.
-/

namespace FortranLayout.Text

/-- The code points at which membership in the class of white space changes. -/
def whitespaceBoundaries : List Nat :=
  [0x9, 0xe, 0x20, 0x21, 0x85, 0x86, 0xa0, 0xa1, 0x1680, 0x1681, 0x2000, 0x200b, 0x2028, 0x202a,
   0x202f, 0x2030, 0x205f, 0x2060, 0x3000, 0x3001]

/-- Whether `c` is white space: controls such as tab and newline, and every kind of space. -/
def isWhitespace (c : Char) : Bool :=
  listed whitespaceBoundaries c

/-- `s` without the white space at its two ends. -/
def trim (s : List Char) : List Char :=
  ((s.dropWhile isWhitespace).reverse.dropWhile isWhitespace).reverse

/-- What the standard library counts as white space is white space here. -/
theorem isWhitespace_of_ascii {c : Char} (h : c.isWhitespace = true) : isWhitespace c = true := by
  simp only [Char.isWhitespace, Bool.or_eq_true, decide_eq_true_eq] at h
  rcases h with ((rfl | rfl) | rfl) | rfl <;> decide

end FortranLayout.Text
