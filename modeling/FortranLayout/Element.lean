/-!
# Elements

An element is a syntax tree as a value: a tag, the text before the first child, the children, and
the tail, which is the text between the element's end and whatever comes next. The source of an
element is all of it in document order.
-/

namespace FortranLayout

/-- A syntax tree. -/
structure Element where
  tag : String
  /-- The text before the first child. -/
  text : String := ""
  /-- The text after the element, up to its next sibling. -/
  tail : String := ""
  children : List Element := []
deriving Repr, Inhabited

/-- One line of an outline: the depth of an element and what the element itself carries. -/
structure Row where
  depth : Nat
  tag : String
  text : String
  tail : String
deriving DecidableEq, Repr

namespace Element

mutual

/-- The source text of an element: its text, its children, its tail. -/
def source : Element → String
  | ⟨_, text, tail, children⟩ => text ++ sources children ++ tail

/-- The source text of a list of elements. -/
def sources : List Element → String
  | [] => ""
  | e :: es => source e ++ sources es

end

mutual

/-- The number of elements in an element, itself included. -/
def size : Element → Nat
  | ⟨_, _, _, children⟩ => sizes children + 1

/-- The number of elements in a list of elements. -/
def sizes : List Element → Nat
  | [] => 0
  | e :: es => size e + sizes es

end

mutual

/-- The number of elements on the longest way down. -/
def height : Element → Nat
  | ⟨_, _, _, children⟩ => heights children + 1

/-- The greatest height in a list of elements. -/
def heights : List Element → Nat
  | [] => 0
  | e :: es => max (height e) (heights es)

end

mutual

/-- The rows of an element in document order, the element itself at depth `depth`. -/
def outlineAt (depth : Nat) : Element → List Row
  | ⟨tag, text, tail, children⟩ => ⟨depth, tag, text, tail⟩ :: outlinesAt (depth + 1) children

/-- The rows of a list of elements in document order. -/
def outlinesAt (depth : Nat) : List Element → List Row
  | [] => []
  | e :: es => outlineAt depth e ++ outlinesAt depth es

end

/-- The rows of an element in document order. -/
def outline (e : Element) : List Row := e.outlineAt 0

theorem sources_append (es fs : List Element) : sources (es ++ fs) = sources es ++ sources fs := by
  induction es with
  | nil => simp [sources]
  | cons e es ih => simp [sources, ih, String.append_assoc]

theorem sizes_append (es fs : List Element) : sizes (es ++ fs) = sizes es + sizes fs := by
  induction es with
  | nil => simp [sizes]
  | cons e es ih => simp [sizes, ih, Nat.add_assoc]

end Element

end FortranLayout
