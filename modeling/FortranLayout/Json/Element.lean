import FortranLayout.Data
import FortranLayout.Element

/-!
# Elements in documents

An element is a table with the fields `tag`, `text`, `tail` and `children`, of which only the tag
must be there, or an array of these in this order, in which the last ones may be missing. Fields of
other names are passed over.
-/

namespace FortranLayout

namespace Element

/-- The text that a value denotes. -/
def textOf? : Data → Option String
  | .string s => some s
  | _ => none

/-- The value of the field `key`, or `standard` where the field is missing. A field given twice is
refused. -/
def fieldOf? {α : Type} (read : Data → Option α) (standard : Option α)
    (fields : List (String × Data)) (key : String) : Option α :=
  match Data.valuesAt key fields with
  | [] => standard
  | [d] => read d
  | _ => none

/-- The value at a position of an array, or `standard` where the array is shorter. -/
def itemOf? {α : Type} (read : Data → Option α) (standard : Option α) (items : List Data)
    (index : Nat) : Option α :=
  match items[index]? with
  | some d => read d
  | none => standard

mutual

/-- The element that a value denotes, if its tables and arrays are nested at most `levels` deep. -/
def ofData? : Nat → Data → Option Element
  | levels + 1, .table fields => do
    let tag ← fieldOf? textOf? none fields "tag"
    let text ← fieldOf? textOf? (some "") fields "text"
    let tail ← fieldOf? textOf? (some "") fields "tail"
    let children ← fieldOf? (childrenOf? levels) (some []) fields "children"
    return { tag, text, tail, children }
  | levels + 1, .array items => do
    if items.length > 4 then none
    let tag ← itemOf? textOf? none items 0
    let text ← itemOf? textOf? (some "") items 1
    let tail ← itemOf? textOf? (some "") items 2
    let children ← itemOf? (childrenOf? levels) (some []) items 3
    return { tag, text, tail, children }
  | _, _ => none

/-- The elements that an array denotes, if it and what is in it are nested at most `levels` deep. -/
def childrenOf? : Nat → Data → Option (List Element)
  | levels + 1, .array items => items.mapM (ofData? levels)
  | _, _ => none

end

/-- How deep the tables and arrays of a document may be nested. -/
def levelLimit : Nat := 127

mutual

/-- The value of an element, without its empty parts. -/
def toData : Element → Data
  | ⟨tag, text, tail, children⟩ =>
    .table (("tag", .string tag) ::
      (if text.isEmpty then [] else [("text", .string text)]) ++
      (if tail.isEmpty then [] else [("tail", .string tail)]) ++
      (if children.isEmpty then [] else [("children", .array (toDataList children))]))

/-- The values of elements. -/
def toDataList : List Element → List Data
  | [] => []
  | e :: es => toData e :: toDataList es

end

end Element

end FortranLayout
