import FortranLayout.Forest.Basic

/-!
# From events to the store

A streaming parser reports a tree as events: an element starts, text is read, the element finishes.
Text belongs to the open element while that has no children, and to the tail of its last child
afterwards. The root is open throughout.
-/

namespace FortranLayout

/-- What a streaming parser reports. -/
inductive Event where
  | start (tag : String)
  | text (s : String)
  | finish
  /-- A start, a text and a finish. -/
  | leaf (tag text : String)
deriving DecidableEq, Repr

/-- A tree under construction. -/
structure Builder where
  forest : Forest
  /-- The open nodes other than the root, innermost first. -/
  opened : List NodeId := []

namespace Builder

/-- The innermost open node. -/
def current (b : Builder) : NodeId := b.opened.headD Forest.root

/-- Opens a child of the innermost open node. -/
def start (b : Builder) (tag : String) : Builder :=
  ⟨(b.forest.add { tag := tag }).appendChild b.current b.forest.size, b.forest.size :: b.opened⟩

/-- Appends text at the current position. -/
def text (b : Builder) (s : String) : Builder :=
  match b.forest.lastChild? b.current with
  | some last => { b with forest := b.forest.setTail last (b.forest.tail last ++ s) }
  | none => { b with forest := b.forest.setText b.current (b.forest.text b.current ++ s) }

/-- Closes the innermost open node other than the root. -/
def finish (b : Builder) : Builder := { b with opened := b.opened.tail }

/-- Takes one event in. -/
def step (b : Builder) : Event → Builder
  | .start tag => b.start tag
  | .text s => b.text s
  | .finish => b.finish
  | .leaf tag s => ((b.start tag).text s).finish

end Builder

/-- The store built from events below a root with the given tag. Elements still open at the end are
closed. -/
def Forest.ofEvents (rootTag : String) (events : List Event) : Forest :=
  (events.foldl Builder.step ⟨Forest.new rootTag, []⟩).forest

end FortranLayout
