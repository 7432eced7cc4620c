/-!
# Patterns of names

In a pattern, `?` stands for any character, `*` for any text, brackets for one of the characters
listed in them or, after `!`, for one of the others. A component `**` stands for any number of
directories. All else stands for itself. Slashes are characters like any other, except to `**`.

* `Glob.parse?` refuses a bracket that is not closed, three stars in a row, and two stars that are
  only a part of a component.
* `Glob.accepts` says what a pattern means; `Glob.fits` finds it out without trying one piece twice
  at the same place (`fits_eq_accepts`).
-/

namespace FortranLayout

namespace Glob

/-- A piece of a pattern. -/
inductive Piece where
  /-- Any text. -/
  | anything
  /-- Any number of directories, or all that is left. -/
  | directories
  /-- One character in some of the ranges, or in none of them. -/
  | one (within : Bool) (ranges : List (Char × Char))
deriving DecidableEq, Repr

/-- The ranges that are listed between brackets. -/
def ranges : List Char → List (Char × Char)
  | first :: '-' :: last :: rest => (first, last) :: ranges rest
  | c :: rest => (c, c) :: ranges rest
  | [] => []

/-- What stands before the first closing bracket, and after it. -/
def cutAtBracket : List Char → Option (List Char × List Char)
  | [] => none
  | c :: s => if c = ']' then some ([], s) else (cutAtBracket s).map fun (a, b) => (c :: a, b)

theorem length_lt_of_cutAtBracket {s a b : List Char} (h : cutAtBracket s = some (a, b)) :
    b.length < s.length := by
  induction s generalizing a b with
  | nil => simp [cutAtBracket] at h
  | cons c s ih =>
    rw [cutAtBracket] at h
    split at h
    · simp only [Option.some.injEq, Prod.mk.injEq] at h
      simp [← h.2]
    · obtain ⟨⟨a', b'⟩, h', hab⟩ := Option.map_eq_some_iff.mp h
      simp only [Prod.mk.injEq] at hab
      have := ih h'
      simp only [List.length_cons, ← hab.2]
      omega

/-- The pieces of a pattern, given whether a component starts here. -/
def parseFrom (atStart : Bool) (s : List Char) : Option (List Piece) :=
  match s with
  | [] => some []
  | '*' :: '*' :: '/' :: rest =>
    if atStart then (parseFrom true rest).map (.directories :: ·) else none
  | ['*', '*'] => if atStart then some [.directories] else none
  | '*' :: '*' :: _ => none
  | '*' :: rest => (parseFrom false rest).map (.anything :: ·)
  | '?' :: rest => (parseFrom false rest).map (.one false [] :: ·)
  | '[' :: '!' :: c :: rest =>
    match h : cutAtBracket rest with
    | none => none
    | some (listed, rest') =>
      have := length_lt_of_cutAtBracket h
      (parseFrom false rest').map (.one false (ranges (c :: listed)) :: ·)
  | '[' :: c :: rest =>
    match h : cutAtBracket rest with
    | none => none
    | some (listed, rest') =>
      have := length_lt_of_cutAtBracket h
      (parseFrom false rest').map (.one true (ranges (c :: listed)) :: ·)
  | ['['] => none
  | c :: rest => (parseFrom (c = '/') rest).map (.one true [(c, c)] :: ·)
termination_by s.length
decreasing_by all_goals simp only [List.length_cons]; omega

/-- The pieces of a pattern. -/
def parse? (s : String) : Option (List Piece) := parseFrom true s.toList

/-- The endings of a text, from the text itself to the empty one. -/
def endings : List Char → List (List Char)
  | [] => [[]]
  | c :: s => (c :: s) :: endings s

/-- The endings that follow a slash. -/
def afterSlashes : List Char → List (List Char)
  | [] => []
  | c :: s => if c = '/' then s :: afterSlashes s else afterSlashes s

/-- Whether a piece for one character takes `c`. -/
def takes (within : Bool) (ranges : List (Char × Char)) (c : Char) : Bool :=
  (ranges.any fun (first, last) => first ≤ c && c ≤ last) == within

/-- Whether a text matches the pieces of a pattern. -/
def accepts : List Piece → List Char → Bool
  | [], s => s.isEmpty
  | .anything :: rest, s => (endings s).any (accepts rest)
  | .directories :: rest, s =>
    accepts rest s || (afterSlashes s).any (accepts rest) || accepts rest []
  | .one _ _ :: _, [] => false
  | .one within ranges :: rest, c :: s => takes within ranges c && accepts rest s

/-! ## All endings at once

For the pieces from the last to the first, the endings of the text that match are marked, from the
text itself to the empty one. -/

/-- For each ending, whether it or a shorter one is marked. -/
def orShorter : List Bool → List Bool
  | [] => []
  | mark :: marks =>
    let shorter := orShorter marks
    (mark || shorter.headD false) :: shorter

/-- For each ending, whether one that follows a slash in it, or the empty one, is marked. -/
def orAfterSlash : List Char → List Bool → List Bool
  | c :: s, _ :: marks =>
    let shorter := orAfterSlash s marks
    ((c == '/' && marks.headD false) || shorter.headD false) :: shorter
  | _, marks => marks

/-- The endings that match a piece and what follows it, from those that match what follows. -/
def Piece.mark (p : Piece) (s : List Char) (marks : List Bool) : List Bool :=
  match p with
  | anything => orShorter marks
  | directories => List.zipWith (· || ·) marks (orAfterSlash s marks)
  | one within ranges =>
    List.zipWith (fun c mark => takes within ranges c && mark) s marks.tail ++ [false]

/-- The endings of a text that match the pieces of a pattern. -/
def marks : List Piece → List Char → List Bool
  | [], s => (endings s).map List.isEmpty
  | p :: rest, s => p.mark s (marks rest s)

/-- Whether a text matches the pieces of a pattern. -/
def fits (pieces : List Piece) (s : List Char) : Bool := (marks pieces s).headD false

theorem headD_map_endings (f : List Char → Bool) (s : List Char) :
    ((endings s).map f).headD false = f s := by
  cases s <;> rfl

theorem orShorter_map_endings (f : List Char → Bool) (s : List Char) :
    orShorter ((endings s).map f) = (endings s).map fun t => (endings t).any f := by
  induction s with
  | nil => simp [endings, orShorter]
  | cons c s ih =>
    simp only [endings, List.map_cons, orShorter, ih, List.any_cons]
    rw [headD_map_endings]

theorem orAfterSlash_map_endings (f : List Char → Bool) (s : List Char) :
    orAfterSlash s ((endings s).map f) =
      (endings s).map fun t => (afterSlashes t).any f || f [] := by
  induction s with
  | nil => simp [endings, orAfterSlash, afterSlashes]
  | cons c s ih =>
    simp only [endings, List.map_cons, orAfterSlash, ih, headD_map_endings]
    by_cases hc : c = '/' <;> simp [afterSlashes, hc, Bool.or_assoc]

theorem zipWith_map_endings (f g : List Char → Bool) (s : List Char) :
    List.zipWith (· || ·) ((endings s).map f) ((endings s).map g) =
      (endings s).map fun t => f t || g t := by
  induction endings s with
  | nil => rfl
  | cons t ts ih => simp [ih]

theorem mark_one_map_endings (within : Bool) (ranges : List (Char × Char)) (f : List Char → Bool)
    (s : List Char) :
    (Piece.one within ranges).mark s ((endings s).map f) =
      (endings s).map fun t => match t with
        | [] => false
        | c :: t => takes within ranges c && f t := by
  induction s with
  | nil => rfl
  | cons c s ih =>
    have hs : (endings s).map f = f s :: ((endings s).map f).tail := by cases s <;> rfl
    simp only [Piece.mark, endings, List.map_cons, List.tail_cons] at ih ⊢
    rw [hs, List.zipWith_cons_cons, List.cons_append, ih]

/-- The endings that are marked are those that match. -/
theorem marks_eq (pieces : List Piece) (s : List Char) :
    marks pieces s = (endings s).map (accepts pieces) := by
  induction pieces with
  | nil => exact List.map_congr_left fun t _ => by simp [accepts]
  | cons p rest ih =>
    rw [marks, ih]
    cases p with
    | anything =>
      rw [Piece.mark, orShorter_map_endings]
      exact List.map_congr_left fun t _ => by simp [accepts]
    | directories =>
      rw [Piece.mark, orAfterSlash_map_endings, zipWith_map_endings]
      exact List.map_congr_left fun t _ => by simp [accepts, Bool.or_assoc]
    | one within ranges =>
      rw [mark_one_map_endings]
      exact List.map_congr_left fun t _ => by cases t <;> simp [accepts]

/-- Marking endings finds out what the pattern means. -/
theorem fits_eq_accepts (pieces : List Piece) (s : List Char) :
    fits pieces s = accepts pieces s := by
  rw [fits, marks_eq, headD_map_endings]

end Glob

end FortranLayout
