import FortranLayout.Run

/-!
# The command

Reads the files that a run can ask for, carries the run out, and writes the files that it changed.
The names in a directory are asked of `list`, which an executable hands to `perform`; of anything
that is no directory it gives none.
-/

namespace FortranLayout

namespace Environment

/-- Adds what a file holds to the tree, if it can be read. -/
def load (e : Environment) (path : Path) : IO Environment := do
  try
    let s ← IO.FS.readFile path.text
    return { e with tree := e.tree.learn e.here path s }
  catch _ => return e

variable (list : Path → IO (List String))

/-- Adds the files at most so many levels below a directory that are taken for trees. -/
def loadBelow (a : Arguments) : Nat → Environment → Path → IO Environment
  | 0, e, _ => return e
  | depth + 1, e, directory => do
    (← list directory).foldlM
      (fun e name => do
        let path := directory.join name
        loadBelow a depth (← if a.takesFile path then e.load path else pure e) path) e

/-- What a run with the given arguments can ask for. The files of directories come first, so that
they are in the order in which they are listed. -/
def gather (a : Arguments) : IO Environment := do
  let here := (Path.ofString (toString (← IO.currentDir))).steps
  let home := (← IO.getEnv "HOME").map Path.ofString
  let input ← if a.readsInput then (← IO.getStdin).readToEnd else pure ""
  let inputs := if a.readsInput then [] else a.inputs.map Path.ofString
  let e ← inputs.foldlM (loadBelow list a a.depth)
    { tree := { directories := [here] }, here := here, home := home, input := input }
  let e ← (inputs ++ (a.config.map Path.ofString).toList).foldlM load e
  let starts := if a.readsInput then [e.herePath] else a.files e
  (home.toList.map (·.join Settings.fileName) ++ starts.flatMap e.candidates).foldlM load e

end Environment

/-- Shows what a run leaves behind, and writes the files that it changed. -/
def Outcome.carryOut (o : Outcome) (before : FileTree) : IO UInt32 := do
  for (place, s) in o.tree.files do
    if before.contents? place != some s then
      IO.FS.writeFile (Path.ofSteps true place).text s
  IO.print o.output
  o.notes.forM fun note => IO.eprintln note.line
  return o.code.toUInt32

/-- Runs the command with the given words. -/
def perform (list : Path → IO (List String)) (words : List String) : IO UInt32 := do
  let e ← match Arguments.parse words with
    | .ok a => Environment.gather list a
    | .error _ => pure { tree := {}, here := [], home := none }
  (runCommand words e).carryOut e.tree

end FortranLayout
