/-!
# Shapes

A shape is a tree of node numbers: what a store of nodes looks like below one of them, whatever the
nodes carry. Document order is read off a shape.
-/

namespace FortranLayout

/-- The number of a node in a store. -/
abbrev NodeId := Nat

/-- A tree of node numbers. -/
inductive Shape where
  | node (id : NodeId) (children : List Shape)
deriving Repr, Inhabited

namespace Shape

/-- The node at the top of a shape. -/
def id : Shape → NodeId
  | node i _ => i

/-- The shapes below the top. -/
def children : Shape → List Shape
  | node _ cs => cs

mutual

/-- The nodes of a shape in document order: each node before its children. -/
def preorder : Shape → List NodeId
  | node i cs => i :: preorders cs

/-- The nodes of a list of shapes in document order. -/
def preorders : List Shape → List NodeId
  | [] => []
  | s :: ss => preorder s ++ preorders ss

end

end Shape

end FortranLayout
