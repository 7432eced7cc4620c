import FortranLayout.Continuation.Alignment
import FortranLayout.Continuation.Markers

/-!
# Updating continuation markers

First the markers are inserted or removed, then the continued lines are aligned.
-/

namespace FortranLayout

namespace MarkerOptions

/-- Updates the markers below `i`. -/
def apply (o : MarkerOptions) (i : NodeId) (f : Forest) : MarkerDraft :=
  let m := MarkerDraft.revise o i { forest := f }
  if o.align then
    let a := Alignment.alignBelow (m.forest.shape i) { forest := m.forest.indexed }
    { forest := a.forest, report := { m.report with aligned := a.aligned } }
  else m

end MarkerOptions

/-- Updates the markers below `i`, if the options are valid. -/
def updateContinuation (o : MarkerOptions) (i : NodeId) (f : Forest) :
    Except Fault MarkerDraft := do
  o.validate
  return o.apply i f

end FortranLayout
