import FortranLayout.Forest.Draft
import FortranLayout.Text.Affix

/-!
# Removing comments

A comment that is removed leaves its tail in the tree, so that line breaks survive. Comments that
are directives stay, and so do preprocessor lines, which are no comments.
-/

namespace FortranLayout

/-- The settings of the comment removal. -/
structure CommentOptions where
  /-- How the comments begin that are directives. -/
  excludedDirectives : List String := ["!$OMP", "!$mnh"]
deriving DecidableEq, Repr

namespace CommentOptions

/-- Whether node `i` is a comment to remove. -/
def removes (o : CommentOptions) (f : Forest) (i : NodeId) : Bool :=
  f.kind i == .comment && !o.excludedDirectives.any (Text.beginsWith · (f.text i))

/-- `removeBelow` down to depth `fuel`. -/
def removeWithin (o : CommentOptions) : Nat → NodeId → Draft → Draft
  | 0, _, d => d
  | fuel + 1, parent, d =>
    (d.forest.children parent).reverse.foldl (fun d child =>
      if o.removes d.forest child then ⟨d.forest.removeChild parent child, d.edits + 1⟩
      else removeWithin o fuel child d) d

/-- Removes the comments below `i`, from the last to the first, so that tails go to siblings that
are still there. -/
def removeBelow (o : CommentOptions) (i : NodeId) (d : Draft) : Draft :=
  o.removeWithin d.forest.size i d

end CommentOptions

/-- Removes the comments of the tree. -/
def removeComments (o : CommentOptions) (f : Forest) : Draft :=
  o.removeBelow Forest.root { forest := f }

end FortranLayout
