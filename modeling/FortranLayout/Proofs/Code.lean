import FortranLayout.Continuation.Markers
import FortranLayout.Proofs.Forest.OfElement

/-!
# The code of a tree

What a layout pass may not touch is read off the source: the characters of some class, in document
order, with the texts of some nodes passed over. Such a reading is a `View`.

* `Element.code` is defined by `Element.source` of what is left when the passed-over texts are
  cleared; `Element.code_mk` is its equation.
* `Forest.code` reads the tree of a store.
-/

namespace FortranLayout

/-- A reading of the source. -/
structure View where
  /-- The characters that are read. -/
  reads : Char → Bool
  /-- The kinds whose text is passed over. -/
  skipsText : Kind → Bool
  /-- The kinds whose text and descendants are passed over; their tails are read. -/
  skipsContent : Kind → Bool

namespace View

/-- What the view reads of a text. -/
def read (v : View) (s : String) : List Char := s.toList.filter v.reads

@[simp] theorem read_append (v : View) (s t : String) : v.read (s ++ t) = v.read s ++ v.read t := by
  simp [read]

@[simp] theorem read_ofList (v : View) (s : List Char) :
    v.read (String.ofList s) = s.filter v.reads := by
  simp [read]

/-- The characters other than blanks, tabs and newlines, outside the texts of markers. -/
def outsideMarkers : View where
  reads := isCode
  skipsText := (· == .continuation)
  skipsContent := fun _ => false

end View

namespace Element

mutual

/-- The element without the texts that the view passes over. -/
def cleared (v : View) : Element → Element
  | ⟨tag, text, tail, cs⟩ =>
    if v.skipsContent (Kind.ofTag tag) then ⟨tag, "", tail, []⟩
    else ⟨tag, if v.skipsText (Kind.ofTag tag) then "" else text, tail, allCleared v cs⟩

/-- The elements without the texts that the view passes over. -/
def allCleared (v : View) : List Element → List Element
  | [] => []
  | e :: es => e.cleared v :: allCleared v es

end

/-- The characters of the source that the view reads. -/
def code (v : View) (e : Element) : List Char := v.read (e.cleared v).source

@[simp] theorem allCleared_eq (v : View) (es : List Element) :
    allCleared v es = es.map (cleared v) := by
  induction es with
  | nil => rfl
  | cons e es ih => simp [allCleared, ih]

theorem read_sources_map_cleared (v : View) (es : List Element) :
    v.read (sources (es.map (cleared v))) = es.flatMap (code v) := by
  induction es with
  | nil => rfl
  | cons e es ih => simp [sources, ih, code]

/-- What the view reads of an element before its children. -/
def ownCode (v : View) (kind : Kind) (text : String) : List Char :=
  if v.skipsContent kind || v.skipsText kind then [] else v.read text

theorem code_mk (v : View) (tag text tail : String) (cs : List Element) :
    code v ⟨tag, text, tail, cs⟩ =
      ownCode v (Kind.ofTag tag) text ++
        (if v.skipsContent (Kind.ofTag tag) then [] else cs.flatMap (code v)) ++ v.read tail := by
  rw [code, cleared, ownCode]
  cases v.skipsContent (Kind.ofTag tag) with
  | true => simp [source, sources]
  | false =>
    cases v.skipsText (Kind.ofTag tag) <;> simp [source, read_sources_map_cleared]

/-- The equation of `code` at an element that is not taken apart. -/
theorem code_eq (v : View) (e : Element) :
    e.code v = ownCode v e.kind e.text ++
      (if v.skipsContent e.kind then [] else e.children.flatMap (code v)) ++ v.read e.tail := by
  obtain ⟨tag, text, tail, cs⟩ := e
  exact code_mk v tag text tail cs

/-- What the view reads of an element before its tail. -/
def content (v : View) (e : Element) : List Char :=
  ownCode v e.kind e.text ++ if v.skipsContent e.kind then [] else e.children.flatMap (code v)

theorem code_eq_content (v : View) (e : Element) : e.code v = e.content v ++ v.read e.tail :=
  code_eq v e

theorem code_with_tail (v : View) (e : Element) (t : String) :
    ({ e with tail := t } : Element).code v = e.content v ++ v.read t :=
  code_eq v _

end Element

/-- The characters of the source of the tree that the view reads. -/
def Forest.code (v : View) (f : Forest) : List Char := f.toElement.code v

end FortranLayout
