/-!
# Beginnings and endings of names

Cutting a fixed beginning or ending off a name.
-/

namespace FortranLayout.Text

/-- What follows `beginning` in `s`, if `s` begins so. -/
def dropBeginning? (beginning s : String) : Option String :=
  if beginning.toList.isPrefixOf s.toList then
    some (String.ofList (s.toList.drop beginning.length))
  else none

/-- What precedes `ending` in `s`, if `s` ends so. -/
def dropEnding? (ending s : String) : Option String :=
  if ending.toList.isSuffixOf s.toList then
    some (String.ofList (s.toList.take (s.length - ending.length)))
  else none

/-- Whether `s` begins with `beginning`. -/
def beginsWith (beginning s : String) : Bool := beginning.toList.isPrefixOf s.toList

theorem dropEnding?_isSome (ending s : String) :
    (dropEnding? ending s).isSome = ending.toList.isSuffixOf s.toList := by
  unfold dropEnding?
  split
  · rename_i h
    rw [h]
    rfl
  · rename_i h
    rw [Bool.not_eq_true] at h
    rw [h]
    rfl

end FortranLayout.Text
