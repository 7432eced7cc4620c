import FortranLayout.Document

/-!
# Normalizing in place

A tree is normalized where it is: each pass finds it as the pass before has left it, and when
something is refused the tree stays as it is by then. The passes for spacing and for continuation
markers check their own options once more before they begin.

A document is formatted onto an output, which takes one piece of text after the other and may fail
at any of them; what it has taken by then is written.

* `normalizeInPlace` is `normalize` with the tree that a refusal leaves behind.
* `formatOnto` is `formatDocument` with the output that a failure leaves behind.
-/

namespace FortranLayout

/-! ## Trees -/

/-- Work on a tree that can be refused. What was done to the tree before stays done. -/
abbrev TreeEdit (α : Type) := EStateM Fault Forest α

namespace TreeEdit

/-- Goes on only if a check succeeds. -/
def check (result : Except Fault Unit) : TreeEdit Unit := fun f =>
  match result with
  | .ok _ => .ok () f
  | .error fault => .error fault f

/-- A pass that is never refused. Its result is the number of its edits. -/
def pass (run : Forest → Draft) : TreeEdit Nat := fun f => .ok (run f).edits (run f).forest

/-- The spacing pass, which checks its rules. -/
def spacing (r : SpacingRules) : TreeEdit Nat := fun f =>
  match updateSpacing r f with
  | .ok d => .ok d.edits d.forest
  | .error fault => .error fault f

/-- The pass over the markers below the root, which checks its options. -/
def continuation (o : MarkerOptions) : TreeEdit MarkerReport := fun f =>
  match updateContinuation o Forest.root f with
  | .ok m => .ok m.report m.forest
  | .error fault => .error fault f

/-- Some work, if it is switched on; otherwise the given result. -/
def runIf {α : Type} (on : Bool) (off : α) (work : TreeEdit α) : TreeEdit α :=
  if on then work else pure off

end TreeEdit

section

open TreeEdit

/-- Normalizes a tree in place. All settings are checked first. -/
def normalizeInPlace (s : Settings) : TreeEdit Report := do
  check s.validate
  let commentsRemoved ← runIf s.passes.removeComments 0 (pass (removeComments s.comments))
  let ifStatementsConverted ← runIf s.passes.convertIfStatements 0 (pass convertIfStatements)
  let containsRemoved ← runIf s.passes.removeEmptyContains 0 (pass removeEmptyContains)
  let blankLineEdits ← runIf s.passes.removeEmptyLines 0 (pass removeEmptyLines)
  let spacingEdits ← runIf s.passes.spacing 0 (spacing s.spacing)
  let indentEdits ← runIf s.passes.indent 0 (pass (indentTree s.indent))
  let continuation ← runIf s.passes.continuation {} (continuation s.continuation)
  let caseEdits ← pass (convertCase s.passes.case)
  return { commentsRemoved, ifStatementsConverted, containsRemoved, blankLineEdits, spacingEdits,
           indentEdits, continuation, caseEdits }

end

/-! ## Outputs -/

/-- How an output takes a piece of text: whether it takes all of it, and what it is afterwards. -/
abbrev Writer (δ : Type) := String → δ → Bool × δ

/-- An output in memory takes everything. -/
def Writer.buffer : Writer String := fun piece written => (true, written ++ piece)

/-- Why a document is not formatted onto an output. -/
inductive OutputFault where
  /-- There is nothing to write. -/
  | document (fault : DocumentFault)
  /-- The output failed. -/
  | unwritable
deriving DecidableEq, Repr

/-- Writes a piece of text. -/
def writePiece {δ : Type} (w : Writer δ) (piece : String) : EStateM OutputFault δ Unit := fun out =>
  match w piece out with
  | (true, out) => .ok () out
  | (false, out) => .error .unwritable out

/-- The pieces in which a tree is written: the texts and tails of its nodes, or the document and the
line break that ends it. -/
def Forest.emittedPieces (f : Forest) : Emit → List String
  | .fortran => f.piecesOf (f.shape Forest.root)
  | .json => [String.ofList (Json.element 0 f.toElement), "\n"]

/-- Normalizes the tree of a document and writes it onto an output. -/
def formatOnto {δ : Type} (w : Writer δ) (s : Settings) (emit : Emit) (text : String) :
    EStateM OutputFault δ Report :=
  match Element.ofDocument? text with
  | none => throw (.document .noTree)
  | some e =>
    match (normalizeInPlace s).run (Forest.ofElement e) with
    | .error fault _ => throw (.document (.refused fault))
    | .ok report f => do
      forM (f.emittedPieces emit) (writePiece w)
      return report

end FortranLayout
