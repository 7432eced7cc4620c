import FortranLayout.CommandLine.Arguments
import FortranLayout.Glob
import FortranLayout.Settings.Discovery
import FortranLayout.Text.Affix

/-!
# Selecting files

Which files a command line asks to normalize, and where the results go. A file that is named is
taken whatever its extension; of a directory those files are taken that have one of the extensions
of trees.
-/

namespace FortranLayout

/-- The extensions of the files that hold trees. -/
def treeExtensions : List String := ["json", "JSON"]

/-- An extension without the dot that may stand before it. -/
def bareExtension (s : String) : String := (Text.dropBeginning? "." s).getD s

namespace Arguments

/-- Whether a file in a directory is taken for a tree. -/
def takesFile (a : Arguments) (path : Path) : Bool :=
  match path.extension? with
  | none => false
  | some e => treeExtensions.contains e || (a.extensions.map bareExtension).contains e

/-- Whether a path is left out: the path as a whole matches a pattern, or one of the names in it
does. Patterns that are not well formed are passed over. -/
def excludes (a : Arguments) (path : Path) : Bool :=
  (a.exclude.filterMap Glob.parse?).any fun pattern =>
    (path.text :: path.name :: path.names).any fun s => Glob.fits pattern s.toList

/-- How many levels of directories are searched. -/
def depth (a : Arguments) : Nat := if a.has .recursive then 256 else 1

/-- The files to normalize for one input. -/
def filesFor (a : Arguments) (e : Environment) (input : Path) : List Path :=
  if e.isFile input then [input].filter (!a.excludes ·)
  else match e.directory? input with
    | none => []
    | some place =>
      (e.tree.walk place input a.depth).filter fun p => a.takesFile p && !a.excludes p

/-- The files to normalize. -/
def files (a : Arguments) (e : Environment) : List Path :=
  a.inputs.flatMap fun input => a.filesFor e (.ofString input)

end Arguments

/-- Where the result for a file is written. A document replaces the one that was read; Fortran
source is put beside it. -/
def Emit.target (emit : Emit) (path : Path) : Path :=
  match emit with
  | .json => path
  | .fortran => path.withExtension "F90"

end FortranLayout
