/-!
# Character classes given by their boundaries

A class of characters is stored as the increasing list of the code points at which membership
changes: a character belongs to the class when an odd number of boundaries lie at or below it.
-/

namespace FortranLayout.Text

/-- Whether `c` belongs to the class with the given boundaries. -/
def listed (boundaries : List Nat) (c : Char) : Bool :=
  (boundaries.takeWhile (· ≤ c.toNat)).length % 2 == 1

end FortranLayout.Text
