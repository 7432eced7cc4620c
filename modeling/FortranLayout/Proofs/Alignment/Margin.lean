import FortranLayout.Proofs.Forest.Parents

/-!
# Alignment of elements

What aligning continued lines does to a tree, as a function of elements. The state of the walk is a
`Margin`: the text of the line that has been reached and the column of the statement that is being
continued. `Element.alignAll` goes through a list of elements from the first to the last,
`Element.alignBelow` through what is below an element.
-/

namespace FortranLayout

namespace Text

theorem afterLastNewline?_append (s t : List Char) :
    Alignment.afterLastNewline? (s ++ t) =
      (Alignment.afterLastNewline? t).or ((Alignment.afterLastNewline? s).map (· ++ t)) := by
  induction s with
  | nil => simp [Alignment.afterLastNewline?]
  | cons c s ih =>
    rw [List.cons_append, Alignment.afterLastNewline?, ih, Alignment.afterLastNewline?]
    cases Alignment.afterLastNewline? t with
    | some line => rfl
    | none =>
      cases Alignment.afterLastNewline? s with
      | some line => rfl
      | none =>
        by_cases hc : c = '\n'
        · simp [hc]
        · simp [hc]

end Text

/-- Where the walk is: the text of the current line, and the column of the lines that continue the
current statement. -/
structure Margin where
  line : List Char := []
  column : Option Nat := none
deriving DecidableEq, Repr

namespace Margin

/-- Whether an element is a marker that ends its line. -/
def isEnd (kind : Kind) (tail : String) (next : Option Kind) : Bool :=
  kind == .continuation && (Text.hasNewline tail.toList || next == some .comment)

/-- The column is found at the first marker that ends a line. -/
def findColumn (m : Margin) (c : AnchorClass) (next : Option Kind) : Margin :=
  match m.column with
  | some _ => m
  | none => { m with column := some (c.column m.line (next.all (· == .continuation))) }

/-- A tail with its lines started at a column. -/
def startAt (tail : String) (column : Nat) : String :=
  String.ofList ((Gaps.after '\n' column).everywhere tail.toList)

/-- Whether the line after an element continues a statement. -/
def continues (m : Margin) (kind : Kind) (tail : String) (next : Option Kind)
    (afterComment : Bool) :
    Bool :=
  isEnd kind tail next || (afterComment && kind == .comment) ||
    (m.column.isSome && kind == .directive)

/-- The margin once the column that an element needs is found. -/
def found (m : Margin) (c : AnchorClass) (kind : Kind) (tail : String)
    (next : Option Kind) : Margin :=
  if isEnd kind tail next then m.findColumn c next else m

/-- The tail that an element gets. -/
def tailAfter (m : Margin) (c : AnchorClass) (kind : Kind) (tail : String) (next : Option Kind)
    (afterComment : Bool) : String :=
  if m.continues kind tail next afterComment && next != some .directive then
    startAt tail ((m.found c kind tail next).column.getD AnchorClass.standardColumn)
  else tail

/-- The line goes on with the text of an element. -/
def readText (m : Margin) (kind : Kind) (text : String) : Margin :=
  match kind with
  | .comment | .continuation => m
  | _ => { m with line := m.line ++ text.toList }

/-- The line goes on with the tail of an element. -/
def readTail (m : Margin) (kind : Kind) (tail : String) : Margin :=
  match Alignment.afterLastNewline? (m.line ++ tail.toList) with
  | none => { m with line := m.line ++ tail.toList }
  | some rest =>
    match kind with
    | .continuation | .comment | .directive => { m with line := rest }
    | _ => { line := rest, column := none }

end Margin

namespace Element

mutual

/-- Aligns what is below an element, which is inside a statement of class `c`. -/
def alignBelow (c : AnchorClass) (m : Margin) : Element → List Element × Margin
  | ⟨tag, _, _, cs⟩ => alignAll (c.within (Kind.ofTag tag)) false none m cs

/-- Aligns a list of elements in a statement of class `c`, with an element of kind `follow` after
it. -/
def alignAll (c : AnchorClass) (afterComment : Bool) (follow : Option Kind) (m : Margin) :
    List Element → List Element × Margin
  | [] => ([], m)
  | e :: es =>
    let next := (es.head?.map kind).or follow
    let afterComment :=
      afterComment || (Margin.isEnd e.kind e.tail next && next == some .comment)
    let tail := m.tailAfter c e.kind e.tail next afterComment
    let below := e.alignBelow c ((m.found c e.kind e.tail next).readText e.kind e.text)
    let rest := alignAll c (afterComment && (e.kind == .comment || e.kind == .continuation)) follow
      (below.2.readTail e.kind tail) es
    ({ e with tail := tail, children := below.1 } :: rest.1, rest.2)

end

/-- The tree with its continued lines aligned. -/
def aligned (e : Element) : Element := { e with children := (e.alignBelow .generic {}).1 }

theorem alignBelow_mk (c : AnchorClass) (m : Margin) (tag text tail : String) (cs : List Element) :
    alignBelow c m ⟨tag, text, tail, cs⟩ =
      alignAll (c.within (Kind.ofTag tag)) false none m cs := by
  rw [alignBelow]

/-- What is below an element does not depend on its tail. -/
theorem alignBelow_with_tail (c : AnchorClass) (m : Margin) (e : Element) (t : String) :
    alignBelow c m { e with tail := t } = e.alignBelow c m := by
  obtain ⟨tag, text, tail, cs⟩ := e
  rw [alignBelow_mk, alignBelow_mk]

end Element

end FortranLayout
