import FortranLayout.Indentation
import Mathlib.Data.List.ModifyLast

/-!
# Programs and their layout

A program of which every statement is on a line of its own, as a tree and as a list of lines. In the
tree the line break of a statement is its tail, but that of a closing statement is the tail of the
construct or unit that it closes. In the list each line has the level that its place in the nesting
gives.
-/

namespace FortranLayout

/-- Whether the statement opens, closes or divides a unit, a branch, a SELECT CASE or another
construct. -/
def Kind.isDelimiter : Kind → Bool
  | unitStmt _ | endUnitStmt _ | constructStmt _ | endConstructStmt _ | ifThenStmt | elseIfStmt
  | elseStmt | endIfStmt | whereConstructStmt | elseWhereStmt | endWhereStmt | selectCaseStmt
  | caseStmt | endSelectCaseStmt => true
  | _ => false

/-- Whether the construct has an opening statement, a body and a closing statement, and nothing
more. -/
def Construct.isEnclosing : Construct → Bool
  | doLoop | forallLoop | associate | block | critical | changeTeam | derivedType | enumeration =>
    true
  | _ => false

namespace Program

open Text (lineBreak)

/-! ## Programs -/

/-- `n` blanks. -/
def indentation (n : Nat) : String := String.ofList (Text.blanks n)

/-- A tag of a kind with the property `P`. -/
structure Tag (P : Kind → Prop) where
  tag : String
  kind_tag : P (Kind.ofTag tag)

/-- A statement on a line of its own, and the number of blanks after the newline that ends it. -/
structure Line (P : Kind → Prop) extends Tag P where
  text : String
  blanks : Nat

/-- A branch of an IF or WHERE or an arm of a SELECT CASE: a block with the statement that heads it.
-/
structure Branch (P : Kind → Prop) (α : Type) where
  block : Tag fun kind => ∃ family, kind = .block family
  head : Line P
  body : List α

/-- A statement, a construct or a program unit. -/
inductive Item where
  | plain (line : Line fun kind => kind.isStatement ∧ ¬ kind.isDelimiter)
  | enclosed (c : Construct) (enclosing : c.isEnclosing) (node : Tag (· = .construct c))
      (head : Line (· = .constructStmt c)) (body : List Item)
      (closer : Line (· = .endConstructStmt c))
  | branching (node : Tag fun kind => kind = .construct .ifThen ∨ kind = .construct .whereMask)
      (first : Branch (fun kind => kind = .ifThenStmt ∨ kind = .whereConstructStmt) Item)
      (later : List (Branch (fun kind => kind.isInterBranch) Item))
      (closer : Line fun kind => kind.closesBranch)
  | selection (node : Tag (· = .construct .selectCase))
      (block : Tag fun kind => ∃ family, kind = .block family) (head : Line (· = .selectCaseStmt))
      (first : Branch (· = .caseStmt) Item) (later : List (Branch (· = .caseStmt) Item))
      (closer : Line (· = .endSelectCaseStmt))
  | unit (u : ProgramUnit) (node : Tag (· = .programUnit)) (head : Line (· = .unitStmt u))
      (body : List Item) (closer : Line (· = .endUnitStmt u))

theorem Branch.sizeOf_lt {P : Kind → Prop} {b : Branch P Item} {item : Item} (h : item ∈ b.body) :
    sizeOf item < sizeOf b := by
  have hlt := List.sizeOf_lt_of_mem h
  obtain ⟨block, head, body⟩ := b
  rw [Branch.mk.sizeOf_spec]
  dsimp only at hlt
  omega

/-! ## Their trees -/

variable {P : Kind → Prop}

/-- A statement with its line break. -/
def Line.element (line : Line P) : Element := ⟨line.tag, line.text, lineBreak line.blanks, []⟩

/-- The last statement of a construct or unit, whose line break comes after the construct or unit.
-/
def Line.ending (line : Line P) : Element := ⟨line.tag, line.text, "", []⟩

/-- The block of a branch, given what is in its body. -/
def Branch.element {α : Type} (b : Branch P α) (body : List Element) : Element :=
  ⟨b.block.tag, "", "", b.head.element :: body⟩

/-- The last of several blocks ends with `closer`. -/
def closeLast (closer : Element) (blocks : List Element) : List Element :=
  blocks.modifyLast fun b => { b with children := b.children ++ [closer] }

/-- The tree of an item. -/
def Item.element : Item → Element
  | .plain line => line.element
  | .enclosed _ _ node head body closer =>
    ⟨node.tag, "", lineBreak closer.blanks, head.element :: body.map element ++ [closer.ending]⟩
  | .branching node first later closer =>
    ⟨node.tag, "", lineBreak closer.blanks, closeLast closer.ending
      (first.element (first.body.map element) :: later.map fun b => b.element (b.body.map element))⟩
  | .selection node block head first later closer =>
    ⟨node.tag, "", lineBreak closer.blanks, ⟨block.tag, "", "", [head.element]⟩ ::
      closeLast closer.ending (first.element (first.body.map element) ::
        later.map fun b => b.element (b.body.map element))⟩
  | .unit _ node head body closer =>
    ⟨node.tag, "", lineBreak closer.blanks, head.element :: body.map element ++ [closer.ending]⟩
termination_by item => sizeOf item
decreasing_by all_goals grind [→ List.sizeOf_lt_of_mem, → Branch.sizeOf_lt]

/-! ## Their layout -/

/-- The lines of an item that starts at `level`: for each its level and its text. -/
def Item.lines (p : IndentParams) (level : Nat) : Item → List (Nat × String)
  | .plain line => [(level, line.text)]
  | .enclosed _ _ _ head body closer =>
    (level, head.text) :: body.flatMap (lines p (level + p.branch)) ++ [(level, closer.text)]
  | .branching _ first later closer =>
    (level, first.head.text) :: first.body.flatMap (lines p (level + p.branch)) ++
      later.flatMap
        (fun b => (level, b.head.text) :: b.body.flatMap (lines p (level + p.branch))) ++
      [(level, closer.text)]
  | .selection _ _ head first later closer =>
    (level, head.text) ::
      (level + p.branch, first.head.text) :: first.body.flatMap (lines p (level + 2 * p.branch)) ++
      later.flatMap (fun b =>
        (level + p.branch, b.head.text) :: b.body.flatMap (lines p (level + 2 * p.branch))) ++
      [(level, closer.text)]
  | .unit _ _ head body closer =>
    (level, head.text) :: body.flatMap (lines p (level + p.programUnit)) ++ [(level, closer.text)]
termination_by item => sizeOf item
decreasing_by all_goals grind [→ List.sizeOf_lt_of_mem, → Branch.sizeOf_lt]

/-- Lines written out. -/
def spell (lines : List (Nat × String)) : String :=
  String.join (lines.map fun line => indentation line.1 ++ line.2 ++ "\n")

/-- The layout of a program. -/
def print (p : IndentParams) (items : List Item) : String := spell (items.flatMap (Item.lines p 0))

theorem lineBreak_eq (n : Nat) : lineBreak n = "\n" ++ indentation n := by
  apply String.toList_inj.mp
  simp [lineBreak, indentation]

theorem spell_append (ls ls' : List (Nat × String)) :
    spell (ls ++ ls') = spell ls ++ spell ls' := by
  rw [spell, List.map_append, String.join_append]
  rfl

theorem spell_singleton (level : Nat) (text : String) :
    spell [(level, text)] = indentation level ++ text ++ "\n" := by
  rw [spell, List.map_singleton, String.join_cons, String.join_nil, String.append_empty]

end Program

end FortranLayout
