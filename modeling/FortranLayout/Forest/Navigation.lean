import FortranLayout.Forest.Basic

/-!
# Parents and siblings

Nodes do not store their parents. They are found by a walk from the root, or looked up in an index
of the whole tree that is computed once and dropped by every structural edit. For a node below
several parents the index has the last of them in document order and the walk finds the first.
-/

namespace FortranLayout

namespace Forest

/-- The pairs of a parent and a child in the tree, in document order. -/
def edges (f : Forest) : List (NodeId × NodeId) :=
  f.preorder.flatMap fun p => (f.children p).map fun c => (p, c)

/-- For each node its parent, the last one in document order. -/
def scanParents (f : Forest) : Array (Option NodeId) :=
  f.edges.foldl (fun parents edge => parents.setIfInBounds edge.2 (some edge.1))
    (Array.replicate f.size none)

/-- The first node of the tree, in document order, that has `i` as a child. -/
def walkToParent? (f : Forest) (i : NodeId) : Option NodeId :=
  f.preorder.find? fun p => (f.children p).contains i

/-- The same store, with its index of parents computed. -/
def indexed (f : Forest) : Forest :=
  if f.indexes then { f with index := some (f.index.getD f.scanParents) } else f

/-- The parent of a node. The root and the nodes outside the tree have none; among them are the
nodes allocated since the index was computed. -/
def parent? (f : Forest) (i : NodeId) : Option NodeId :=
  if f.indexes then ((f.index.getD f.scanParents)[i]?).join else f.walkToParent? i

/-- Answers parents from an index, or by a walk. -/
def useIndex (f : Forest) (on : Bool) : Forest := { f with indexes := on, index := none }

/-- The parent of a node and the node's position below it. -/
def position? (f : Forest) (i : NodeId) : Option (NodeId × Nat) :=
  (f.parent? i).bind fun p => (f.childIndex? p i).map fun k => (p, k)

/-- The siblings before a node. -/
def siblingsBefore (f : Forest) (i : NodeId) : List NodeId :=
  match f.position? i with
  | some (p, k) => (f.children p).take k
  | none => []

/-- The siblings after a node. -/
def siblingsAfter (f : Forest) (i : NodeId) : List NodeId :=
  match f.position? i with
  | some (p, k) => (f.children p).drop (k + 1)
  | none => []

/-- The sibling directly before a node. -/
def previousSibling? (f : Forest) (i : NodeId) : Option NodeId := (f.siblingsBefore i).getLast?

end Forest

end FortranLayout
