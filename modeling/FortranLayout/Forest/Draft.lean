import FortranLayout.Forest.Basic

/-!
# Drafts

A draft is a forest under edit together with the number of edits so far that changed something. An
edit that leaves a text as it was does not count.
-/

namespace FortranLayout

/-- A forest and the number of edits that changed it. -/
structure Draft where
  forest : Forest
  edits : Nat := 0

namespace Draft

/-- Edits the tail of a node. -/
def editTail (d : Draft) (i : NodeId) (g : List Char → List Char) : Draft :=
  let tail := String.ofList (g (d.forest.tail i).toList)
  if tail = d.forest.tail i then d else ⟨d.forest.setTail i tail, d.edits + 1⟩

/-- Edits the text of a node. -/
def editText (d : Draft) (i : NodeId) (g : List Char → List Char) : Draft :=
  let text := String.ofList (g (d.forest.text i).toList)
  if text = d.forest.text i then d else ⟨d.forest.setText i text, d.edits + 1⟩

/-- Edits the tail of a node, and its text where that is code. -/
def editCode (d : Draft) (i : NodeId) (g : List Char → List Char) : Draft :=
  let d := d.editTail i g
  if (d.forest.kind i).isNonCode then d else d.editText i g

end Draft

end FortranLayout
