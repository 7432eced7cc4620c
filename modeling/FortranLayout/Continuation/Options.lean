import FortranLayout.Fault

/-!
# Options for continuation markers

What to do with the markers `&` of continued statements, and which wishes contradict each other.
-/

namespace FortranLayout

/-- What to do with continuation markers. -/
structure MarkerOptions where
  /-- Align the beginnings of continued lines. -/
  align : Bool := true
  /-- Remove every marker, joining the lines. -/
  removeAll : Bool := false
  /-- Add the markers that are missing at the beginnings of continued lines. -/
  addBegin : Bool := true
  /-- Remove the markers at the beginnings of continued lines. -/
  removeBegin : Bool := false
deriving DecidableEq, Repr

namespace MarkerOptions

/-- Refuses contradictory options. -/
def validate (o : MarkerOptions) : Except Fault Unit :=
  if o.align && o.removeAll then .error (.conflictingModes .align .removeAll)
  else if o.addBegin && o.removeAll then .error (.conflictingModes .addBegin .removeAll)
  else if o.addBegin && o.removeBegin then .error (.conflictingModes .addBegin .removeBegin)
  else .ok ()

/-- Whether a marker is to be removed, given whether it ends a line. -/
def removes (o : MarkerOptions) (endsLine : Bool) : Bool :=
  o.removeAll || (o.removeBegin && !endsLine)

end MarkerOptions

/-- What an update of the markers did. -/
structure MarkerReport where
  inserted : Nat := 0
  removed : Nat := 0
  aligned : Nat := 0
deriving DecidableEq, Repr

end FortranLayout
