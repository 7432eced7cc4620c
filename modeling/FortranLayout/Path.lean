/-!
# Paths

A path is kept as it is written, as the texts between its slashes: it is shown in the form in which
it was given, and the directories on the way to it are beginnings of it. Where two paths are
compared, or their steps are counted, empty texts and single dots do not count; only a dot at the
very beginning does.
-/

namespace FortranLayout

/-- A path: the texts between its slashes. -/
structure Path where
  segments : List String
deriving DecidableEq, Repr

namespace Path

/-- The texts between slashes. -/
def split : List Char → List (List Char)
  | [] => [[]]
  | c :: s =>
    if c = '/' then [] :: split s
    else match split s with
      | [] => [[c]]
      | first :: rest => (c :: first) :: rest

theorem split_ne_nil (s : List Char) : split s ≠ [] := by
  cases s with
  | nil => simp [split]
  | cons c s =>
    rw [split]
    split
    · simp
    · split <;> simp

/-- Slashes put back between the texts give the text that was split. -/
theorem intercalate_split (s : List Char) : ['/'].intercalate (split s) = s := by
  induction s with
  | nil => rfl
  | cons c s ih =>
    rw [split]
    split
    · rename_i hc
      subst hc
      obtain ⟨first, rest, h⟩ := List.exists_cons_of_ne_nil (split_ne_nil s)
      rw [h] at ih ⊢
      rw [List.intercalate_cons_cons, ih]
      rfl
    · split
      · rename_i h
        exact absurd h (split_ne_nil s)
      · rename_i first rest h
        rw [h] at ih
        cases rest with
        | nil => simpa using ih
        | cons second rest =>
          rw [List.intercalate_cons_cons] at ih ⊢
          simp [← ih]

/-- The path written as the given text. -/
def ofString (s : String) : Path := ⟨(split s.toList).map String.ofList⟩

/-- The path as it is written. -/
def text (p : Path) : String := "/".intercalate p.segments

/-- Whether the path starts at the root. -/
def isAbsolute (p : Path) : Bool := p.segments.head? == some "" && 1 < p.segments.length

/-- Whether a segment leads somewhere else. -/
def isStep (s : String) : Bool := s ≠ "" && s ≠ "."

/-- The segments that count. -/
def steps (p : Path) : List String :=
  match p.segments with
  | "." :: rest => "." :: rest.filter isStep
  | segments => segments.filter isStep

/-- Whether two paths have the same steps from the same start. -/
def agrees (p q : Path) : Bool := p.isAbsolute == q.isAbsolute && p.steps == q.steps

/-- The path with the given segments after its start, which is the root or not. -/
def ofSteps (absolute : Bool) (segments : List String) : Path :=
  if absolute then ⟨"" :: (if segments.isEmpty then [""] else segments)⟩
  else ⟨if segments.isEmpty then [""] else segments⟩

/-- The path of something inside a directory. -/
def join (p : Path) (name : String) : Path :=
  if p.segments.getLast? == some "" then ⟨p.segments.dropLast ++ [name]⟩
  else ⟨p.segments ++ [name]⟩

/-- The shortest beginning of some segments that holds `n` steps. -/
def throughSteps : Nat → List String → List String
  | 0, _ => []
  | _, [] => []
  | n + 1, s :: rest => s :: throughSteps (if isStep s then n else n + 1) rest

/-- The directory that the first `n` steps of a path lead to. -/
def upTo (p : Path) (n : Nat) : Path :=
  ofSteps p.isAbsolute <|
    match p.segments, n with
    | "." :: rest, n + 1 => "." :: throughSteps n rest
    | segments, n => throughSteps n (if p.isAbsolute then segments.tail else segments)

/-- The directory that a path lies in. -/
def parent (p : Path) : Path := p.upTo (p.steps.length - 1)

/-- The directories on the way to a path, and last the path itself. -/
def ancestors (p : Path) : List Path := (List.range p.steps.length).map p.upTo ++ [p]

/-- The name at the end of a path. -/
def name (p : Path) : String := p.segments.getLast?.getD ""

/-- The names of the directories and of the file that a path goes through. -/
def names (p : Path) : List String := p.segments.filter fun s => isStep s && s ≠ ".."

/-! ## Extensions -/

/-- A name cut at its last dot. A dot at the beginning of a name starts no extension. -/
def cutName (name : List Char) : List Char × Option (List Char) :=
  match name.reverse.dropWhile (· ≠ '.') with
  | _ :: c :: stem => ((c :: stem).reverse, some (name.reverse.takeWhile (· ≠ '.')).reverse)
  | _ => (name, none)

/-- The extension of the name. -/
def extension? (p : Path) : Option String := (cutName p.name.toList).2.map String.ofList

/-- The path with another extension in place of its own, or with one added. A name that has nothing
but a dot before its extension leaves two dots, which lead to a directory and take no extension. -/
def withExtension (p : Path) (extension : String) : Path :=
  let name := match cutName p.name.toList with
    | (['.'], some _) => ".."
    | (stem, _) => String.ofList stem ++ "." ++ extension
  ⟨p.segments.dropLast ++ [name]⟩

end Path

end FortranLayout
