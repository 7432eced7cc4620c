import FortranLayout.FileTree

/-!
# The surroundings of a run

What a run can see: the files there are, where it takes place, and what it is given to read.
-/

namespace FortranLayout

/-- What a run can see of the world around it. -/
structure Environment where
  tree : FileTree
  /-- The directory in which the run takes place. -/
  here : Place
  home : Option Path
  /-- What is given on standard input. -/
  input : String := ""
deriving DecidableEq, Repr

namespace Environment

/-- The path of the directory in which the run takes place. -/
def herePath (e : Environment) : Path := .ofSteps true e.here

/-- What the file at the end of a path holds. -/
def read? (e : Environment) (path : Path) : Option String := e.tree.read? e.here path

/-- Whether a path leads to a file. -/
def isFile (e : Environment) (path : Path) : Bool := e.tree.isFile e.here path

/-- The directory that a path leads to. -/
def directory? (e : Environment) (path : Path) : Option Place := e.tree.directory? e.here path

end Environment

end FortranLayout
