import FortranLayout.Element
import FortranLayout.Kind
import FortranLayout.Shape

/-!
# The store of nodes

A forest holds nodes under numbers given in order of allocation; node `0` is the root. A node
carries its own tag, text and tail and the numbers of its children. A node taken out of the tree
stays in the store, and a node may be entered below several parents; then it occurs several times in
the document. The children relation never has a cycle.

* `Forest.shape` unfolds the store below a node; `Forest.preorder`, `Forest.element` and
  `Forest.source` are read off it.
* Structural edits drop the index of parents (`FortranLayout.Forest.Navigation`); edits of texts and
  tails and allocations keep it.
-/

namespace FortranLayout

/-- A node of the store. -/
structure Node where
  tag : String
  text : String := ""
  tail : String := ""
  children : List NodeId := []
deriving DecidableEq, Repr, Inhabited

/-- The kind of a node is the kind of its tag. -/
def Node.kind (n : Node) : Kind := Kind.ofTag n.tag

/-- A store of nodes. -/
structure Forest where
  nodes : Array Node
  /-- Whether parents are answered from an index of the whole tree. -/
  indexes : Bool := true
  /-- For each node its parent, as of the last structural edit, if it has been computed since. -/
  index : Option (Array (Option NodeId)) := none
deriving DecidableEq, Repr, Inhabited

namespace Forest

/-- The root of the tree. -/
def root : NodeId := 0

/-- The number of nodes in the store. It is also the number that the next node gets. -/
def size (f : Forest) : Nat := f.nodes.size

/-- A store with a root only. -/
def new (tag : String) : Forest := { nodes := #[{ tag := tag }] }

/-! ## What a node carries -/

/-- The node with number `i`. -/
def node (f : Forest) (i : NodeId) : Node := f.nodes.getD i default

/-- The tag of a node. -/
def tag (f : Forest) (i : NodeId) : String := (f.node i).tag

/-- The kind of a node. -/
def kind (f : Forest) (i : NodeId) : Kind := (f.node i).kind

/-- The text of a node. -/
def text (f : Forest) (i : NodeId) : String := (f.node i).text

/-- The tail of a node. -/
def tail (f : Forest) (i : NodeId) : String := (f.node i).tail

/-- The children of a node. -/
def children (f : Forest) (i : NodeId) : List NodeId := (f.node i).children

/-- Whether a node has children. -/
def hasChildren (f : Forest) (i : NodeId) : Bool := !(f.children i).isEmpty

/-- The first child of a node. -/
def firstChild? (f : Forest) (i : NodeId) : Option NodeId := (f.children i).head?

/-- The last child of a node. -/
def lastChild? (f : Forest) (i : NodeId) : Option NodeId := (f.children i).getLast?

/-- The first child of the given kind. -/
def childOfKind? (f : Forest) (i : NodeId) (kind : Kind) : Option NodeId :=
  (f.children i).find? (f.kind · == kind)

/-! ## Edits -/

/-- Adds a node that has no parent; its number is the size of the store before. -/
def add (f : Forest) (n : Node) : Forest := { f with nodes := f.nodes.push n }

/-- Changes what node `i` carries. -/
def update (f : Forest) (i : NodeId) (g : Node → Node) : Forest :=
  { f with nodes := f.nodes.modify i g }

/-- Drops the index of parents. -/
def dropIndex (f : Forest) : Forest := { f with index := none }

/-- Replaces the text of a node. -/
def setText (f : Forest) (i : NodeId) (text : String) : Forest :=
  f.update i fun n => { n with text := text }

/-- Replaces the tail of a node. -/
def setTail (f : Forest) (i : NodeId) (tail : String) : Forest :=
  f.update i fun n => { n with tail := tail }

/-- Replaces the tag of a node, and with it the kind. -/
def setTag (f : Forest) (i : NodeId) (tag : String) : Forest :=
  (f.update i fun n => { n with tag := tag }).dropIndex

/-- Enters `child` at position `index` below `parent`, at the end if there are fewer children. -/
def insertChild (f : Forest) (parent : NodeId) (index : Nat) (child : NodeId) : Forest :=
  (f.update parent fun n =>
    { n with children := n.children.take index ++ child :: n.children.drop index }).dropIndex

/-- Enters `child` after the other children of `parent`. -/
def appendChild (f : Forest) (parent child : NodeId) : Forest :=
  (f.update parent fun n => { n with children := n.children ++ [child] }).dropIndex

/-- The position of `child` below `parent`. -/
def childIndex? (f : Forest) (parent child : NodeId) : Option Nat :=
  (f.children parent).idxOf? child

/-- Takes `child` out of the children of `parent`, at its first position there. No text moves: the
child keeps its tail. If it is no child of `parent`, nothing happens, and the index stays. -/
def detach (f : Forest) (parent child : NodeId) : Forest :=
  if child ∈ f.children parent then
    (f.update parent fun n => { n with children := n.children.erase child }).dropIndex
  else f

/-- Appends `trivia` to the text that precedes position `index` below `parent`: the tail of the
child before it, or the text of `parent`. -/
def appendBefore (f : Forest) (parent : NodeId) (index : Nat) (trivia : String) : Forest :=
  match index with
  | 0 => f.setText parent (f.text parent ++ trivia)
  | before + 1 =>
    match (f.children parent)[before]? with
    | some sibling => f.setTail sibling (f.tail sibling ++ trivia)
    | none => f

/-- Removes `child` from below `parent` and leaves its tail in the tree, where the child was. -/
def removeChild (f : Forest) (parent child : NodeId) : Forest :=
  match f.childIndex? parent child with
  | some index =>
    ((f.detach parent child).setTail child "").appendBefore parent index (f.tail child)
  | none => f

/-! ## Document order -/

/-- The shape below a node, down to depth `fuel`. -/
def shapeWithin (f : Forest) : Nat → NodeId → Shape
  | 0, i => .node i []
  | fuel + 1, i => .node i ((f.children i).map (f.shapeWithin fuel))

/-- The shape below a node. Without a cycle, no way down is longer than the number of nodes. -/
def shape (f : Forest) (i : NodeId) : Shape := f.shapeWithin f.size i

/-- A node and all nodes below it, in document order. -/
def descendants (f : Forest) (i : NodeId) : List NodeId := (f.shape i).preorder

/-- All nodes of the tree, in document order. -/
def preorder (f : Forest) : List NodeId := f.descendants root

/-- The first node of the given kind below `i`. -/
def findBelow? (f : Forest) (i : NodeId) (kind : Kind) : Option NodeId :=
  (f.descendants i).tail.find? (f.kind · == kind)

/-- Whether there is a node of the given kind below `i`. -/
def hasBelow (f : Forest) (i : NodeId) (kind : Kind) : Bool := (f.findBelow? i kind).isSome

mutual

/-- The element that a shape denotes in a store. -/
def elementOf (f : Forest) : Shape → Element
  | .node i cs => ⟨f.tag i, f.text i, f.tail i, f.elementsOf cs⟩

/-- The elements that a list of shapes denotes in a store. -/
def elementsOf (f : Forest) : List Shape → List Element
  | [] => []
  | s :: ss => f.elementOf s :: f.elementsOf ss

end

/-- The tree below a node, as an element. -/
def element (f : Forest) (i : NodeId) : Element := f.elementOf (f.shape i)

/-- The whole tree, as an element. -/
def toElement (f : Forest) : Element := f.element root

/-- The source text of a node: its text, its children, its tail. -/
def sourceOf (f : Forest) (i : NodeId) : String := (f.element i).source

/-- The source text of the tree. -/
def source (f : Forest) : String := f.sourceOf root

mutual

/-- The pieces of the source of a shape, in the order in which they are written out. -/
def piecesOf (f : Forest) : Shape → List String
  | .node i cs => f.text i :: (f.piecesBelow cs ++ [f.tail i])

/-- The pieces of the source of a list of shapes. -/
def piecesBelow (f : Forest) : List Shape → List String
  | [] => []
  | s :: ss => f.piecesOf s ++ f.piecesBelow ss

end

/-- The source of the tree written out piece by piece. -/
def writeSource (f : Forest) : String := String.join (f.piecesOf (f.shape root))

end Forest

end FortranLayout
