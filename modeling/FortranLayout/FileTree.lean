import FortranLayout.Path

/-!
# Files and directories

A tree of files is known by the places of its files, with what they hold, and by the places of some
directories. A place is the list of names that lead to it from the root; every place on the way to a
file or to a directory is a directory. Names and paths that are too long lead nowhere.
-/

namespace FortranLayout

/-- The names that lead to a file or a directory from the root. -/
abbrev Place := List String

/-- The files there are, and the directories. -/
structure FileTree where
  files : List (Place × String) := []
  directories : List Place := []
deriving DecidableEq, Repr

namespace FileTree

/-- The greatest length of a name, in bytes. -/
def nameLimit : Nat := 255

/-- The greatest length of a path, in bytes. -/
def pathLimit : Nat := 4095

/-- What the file at a place holds. -/
def contents? (t : FileTree) (p : Place) : Option String := t.files.lookup p

/-- Whether a place is a directory. -/
def isDirectory (t : FileTree) (p : Place) : Bool :=
  p.isEmpty || t.directories.any p.isPrefixOf ||
    t.files.any fun (file, _) => p.isPrefixOf file && p.length < file.length

/-- One segment further. A segment can only be followed from a directory. -/
def follow (t : FileTree) (p : Place) (segment : String) : Option Place :=
  if !t.isDirectory p || nameLimit < segment.utf8ByteSize then none
  else if segment = "" || segment = "." then some p
  else if segment = ".." then some p.dropLast
  else some (p ++ [segment])

/-- The place that a path leads to from a directory. -/
def resolve? (t : FileTree) (start : Place) (path : Path) : Option Place :=
  if pathLimit < path.text.utf8ByteSize then none
  else path.segments.foldlM t.follow (if path.isAbsolute then [] else start)

/-- What the file at the end of a path holds. -/
def read? (t : FileTree) (start : Place) (path : Path) : Option String :=
  (t.resolve? start path).bind t.contents?

/-- Whether a path leads to a file. -/
def isFile (t : FileTree) (start : Place) (path : Path) : Bool := (t.read? start path).isSome

/-- The directory that a path leads to. -/
def directory? (t : FileTree) (start : Place) (path : Path) : Option Place :=
  (t.resolve? start path).filter t.isDirectory

/-- The paths of the files below a directory, at most so many levels down. -/
def walk (t : FileTree) (place : Place) (path : Path) (depth : Nat) : List Path :=
  let found := t.files.filterMap fun (file, _) =>
    let below := file.drop place.length
    if place.isPrefixOf file && 0 < below.length && below.length ≤ depth then
      some (below.foldl Path.join path)
    else none
  found.filter (·.text.utf8ByteSize ≤ pathLimit)

/-- Sets what the file at a place holds. -/
def setFile (p : Place) (s : String) : List (Place × String) → List (Place × String)
  | [] => [(p, s)]
  | (q, r) :: rest => if q = p then (p, s) :: rest else (q, r) :: setFile p s rest

/-- Writes a file. A directory cannot be written over, nor can a file be put anywhere else than into
a directory. -/
def write? (t : FileTree) (start : Place) (path : Path) (s : String) : Option FileTree :=
  match t.resolve? start path with
  | none => none
  | some p => if t.isDirectory p then none else some { t with files := setFile p s t.files }

/-- The places that a path passes from a directory, if all on its way are directories; the last of
them is where it leads. -/
def route (start : Place) (path : Path) : List Place :=
  let next (places : List Place) (segment : String) : List Place :=
    let p := places.getLast?.getD []
    places ++ [if segment = ".." then p.dropLast else p ++ [segment]]
  (path.segments.filter Path.isStep).foldl next [if path.isAbsolute then [] else start]

/-- A tree that also has a file at the end of a path, and the directories on the way to it. -/
def learn (t : FileTree) (start : Place) (path : Path) (s : String) : FileTree where
  files := setFile ((route start path).getLast?.getD []) s t.files
  directories := t.directories ++ (route start path).dropLast

theorem lookup_setFile (p q : Place) (s : String) (files : List (Place × String)) :
    (setFile p s files).lookup q = if q = p then some s else files.lookup q := by
  induction files with
  | nil =>
    by_cases h : q = p
    · simp [setFile, h]
    · simp [setFile, h, List.lookup_cons, beq_false_of_ne h]
  | cons f rest ih =>
    obtain ⟨r, old⟩ := f
    by_cases hr : r = p
    · subst hr
      by_cases h : q = r
      · simp [setFile, h]
      · simp [setFile, h, List.lookup_cons, beq_false_of_ne h]
    · by_cases hq : q = r
      · subst hq
        simp [setFile, hr]
      · simp [setFile, hr, List.lookup_cons, beq_false_of_ne hq, ih]

/-- A file that was written holds what was written, and the others are as before. -/
theorem contents?_of_write? {t u : FileTree} {start p : Place} {path : Path} {s : String}
    (hp : t.resolve? start path = some p) (h : t.write? start path s = some u) (q : Place) :
    u.contents? q = if q = p then some s else t.contents? q := by
  rw [write?, hp] at h
  simp only at h
  split at h
  · simp at h
  · simp only [Option.some.injEq] at h
    subst h
    exact lookup_setFile p q s t.files

end FileTree

end FortranLayout
