import FortranLayout.Forest.Basic

/-!
# From elements to the store

The nodes of an element are numbered in document order.
-/

namespace FortranLayout

namespace Forest

mutual

/-- Adds an element as the last child of `parent`. -/
def addElement (f : Forest) (parent : NodeId) : Element → Forest
  | ⟨tag, text, tail, children⟩ =>
    addElements ((f.add { tag, text, tail }).appendChild parent f.size) f.size children

/-- Adds elements as the last children of `parent`. -/
def addElements (f : Forest) (parent : NodeId) : List Element → Forest
  | [] => f
  | e :: es => addElements (f.addElement parent e) parent es

end

/-- The store that holds the given tree. -/
def ofElement (e : Element) : Forest :=
  addElements { nodes := #[{ tag := e.tag, text := e.text, tail := e.tail }] } root e.children

end Forest

end FortranLayout
