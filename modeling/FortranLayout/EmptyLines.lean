import FortranLayout.Forest.Draft
import FortranLayout.Text.Blank

/-!
# Removing blank lines

Newlines before the first statement of the file go; elsewhere a run of blank lines becomes one line
break.
-/

namespace FortranLayout

namespace EmptyLines

open Text (blanks)

/-- Collapses each run of newlines, and the blanks between them, into its first newline and the
blanks after its last one. `pending` is the number of blanks read since a newline, if only blanks
have been. -/
def collapseFrom (pending : Option Nat) : List Char → List Char
  | [] => pending.elim [] blanks
  | c :: s =>
    match pending with
    | none => c :: collapseFrom (if c = '\n' then some 0 else none) s
    | some n =>
      if c = '\n' then collapseFrom (some 0) s
      else if c = ' ' then collapseFrom (some (n + 1)) s
      else blanks n ++ c :: collapseFrom none s

/-- Collapses runs of blank lines. -/
def collapse (s : List Char) : List Char := collapseFrom none s

/-- A tail without blank lines. Tabs count as two blanks there; a tail on one line is left alone. -/
def tidyTail (s : List Char) : List Char :=
  if Text.hasNewline s then collapse (Text.expandTabs s) else s

/-- The file node: the root, or else the first one below it. -/
def file? (f : Forest) : Option NodeId :=
  if f.kind Forest.root == .file then some Forest.root else f.findBelow? Forest.root .file

end EmptyLines

/-- Removes the blank lines of the tree. -/
def removeEmptyLines (f : Forest) : Draft :=
  let d : Draft := { forest := f }
  let d := match EmptyLines.file? f with
    | some i => d.editText i (List.filter (· != '\n'))
    | none => d
  f.preorder.foldl (fun d i => d.editTail i EmptyLines.tidyTail) d

end FortranLayout
