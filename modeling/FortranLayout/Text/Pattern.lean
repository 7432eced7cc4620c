import FortranLayout.Text.Blank
import FortranLayout.Text.WordChar

/-!
# Gap patterns

Spacing rules look for a short sequence of fixed characters and runs of blanks, and set the runs
only. Such a rule is a `Pattern`, a list of pieces read from left to right. Reading a pattern yields
the text to write in place of what was read, in which every character other than a blank is kept.

* `Pattern.everywhere` replaces the matches found from left to right, none overlapping another;
  `Pattern.once` replaces the first match and `Pattern.atStart` only a match at the start of the
  text.
* `Pattern.endOfFirst?` is the column at which the first match ends.
* `Pattern.squeeze_read`: reading keeps everything but blanks.
-/

namespace FortranLayout.Text

/-- `c` without regard to letter case. The long s and the Kelvin sign are forms of `s` and `k`. -/
def foldLetter (c : Char) : Char :=
  if c = '\u017f' then 's' else if c = '\u212a' then 'k' else c.toLower

/-- Whether `c` is a Latin letter, in any of its forms. -/
def isLetter (c : Char) : Bool := (foldLetter c).isLower

/-- One piece of a pattern. -/
inductive Piece where
  /-- The character `c`, a letter in either case; `c` itself is in lower case. -/
  | char (c : Char)
  /-- A whole run of at least `least` blanks, written as `width` blanks or kept as it is. -/
  | gap (least : Nat) (width : Option Nat)
  /-- A whole run of letters, possibly empty. -/
  | letters
  /-- One word character. -/
  | word
  /-- Everything up to and including the last `c` of the line. -/
  | throughLast (c : Char)
  /-- Nothing, where no word character follows. -/
  | wordEnd
  /-- Nothing, where the text ends. -/
  | textEnd
deriving DecidableEq, Repr

/-- The longest beginning of `s` that ends in `c`, and what follows it. -/
def splitAfterLast (c : Char) : List Char → Option (List Char × List Char)
  | [] => none
  | x :: rest =>
    match splitAfterLast c rest with
    | some (front, back) => some (x :: front, back)
    | none => if x = c then some ([x], rest) else none

/-- Reads one piece at the start of a text: what to write in its place, and what follows it. -/
def Piece.read (p : Piece) (s : List Char) : Option (List Char × List Char) :=
  match p with
  | char c =>
    match s with
    | x :: rest => if foldLetter x = c then some ([x], rest) else none
    | [] => none
  | gap least width =>
    let run := s.takeWhile isBlank
    if run.length < least then none
    else some ((match width with | some n => blanks n | none => run), s.dropWhile isBlank)
  | letters => some (s.takeWhile isLetter, s.dropWhile isLetter)
  | word =>
    match s with
    | x :: rest => if isWordChar x then some ([x], rest) else none
    | [] => none
  | throughLast c =>
    (splitAfterLast c (s.takeWhile (· ≠ '\n'))).map fun (front, back) =>
      (front, back ++ s.dropWhile (· ≠ '\n'))
  | wordEnd =>
    match s with
    | x :: _ => if isWordChar x then none else some ([], s)
    | [] => some ([], [])
  | textEnd => if s.isEmpty then some ([], []) else none

/-- A sequence of pieces. -/
abbrev Pattern := List Piece

namespace Pattern

/-- The pieces that spell `s`, letters in either case. -/
def spelling (s : String) : Pattern := s.toList.map .char

/-- Reads a pattern at the start of a text: what to write in its place, and what follows it. -/
def read : Pattern → List Char → Option (List Char × List Char)
  | [], s => some ([], s)
  | p :: ps, s =>
    match p.read s with
    | none => none
    | some (written, rest) =>
      match read ps rest with
      | none => none
      | some (written', rest') => some (written ++ written', rest')

/-- Splits a text at the next place to look for a match, given that there is none at its start. A
pattern that begins with a gap and does not match at a run of blanks matches nowhere within the run
either (`read_blank_eq_none`), so the whole run is passed. -/
def advance (p : Pattern) (c : Char) (s : List Char) : List Char × List Char :=
  match p with
  | .gap _ _ :: _ =>
    if isBlank c then (c :: s.takeWhile isBlank, s.dropWhile isBlank) else ([c], s)
  | _ => ([c], s)

/-- `everywhere` with at most `fuel` steps. -/
def everywhereWithin (p : Pattern) : Nat → List Char → List Char
  | 0, s => s
  | _ + 1, [] => []
  | fuel + 1, c :: s =>
    match p.read (c :: s) with
    | some (written, rest) => written ++ everywhereWithin p fuel rest
    | none =>
      let (passed, rest) := p.advance c s
      passed ++ everywhereWithin p fuel rest

/-- Replaces every match, from left to right. A match is never empty, so there are at most as many
steps as characters. -/
def everywhere (p : Pattern) (s : List Char) : List Char := p.everywhereWithin s.length s

/-- `once` with at most `fuel` steps. -/
def onceWithin (p : Pattern) : Nat → List Char → List Char
  | 0, s => s
  | _ + 1, [] => []
  | fuel + 1, c :: s =>
    match p.read (c :: s) with
    | some (written, rest) => written ++ rest
    | none =>
      let (passed, rest) := p.advance c s
      passed ++ onceWithin p fuel rest

/-- Replaces the first match. -/
def once (p : Pattern) (s : List Char) : List Char := p.onceWithin s.length s

/-- Replaces a match at the start of the text. -/
def atStart (p : Pattern) (s : List Char) : List Char :=
  match p.read s with
  | some (written, rest) => written ++ rest
  | none => s

/-- How many characters of the text precede the end of the first match. -/
def endOfFirst? (p : Pattern) : List Char → Option Nat
  | [] => none
  | c :: s =>
    match p.read (c :: s) with
    | some (_, rest) => some ((c :: s).length - rest.length)
    | none => (endOfFirst? p s).map (· + 1)

end Pattern

/-! ## Reading keeps everything but blanks -/

theorem splitAfterLast_eq {c : Char} {s front back : List Char}
    (h : splitAfterLast c s = some (front, back)) : front ++ back = s := by
  induction s generalizing front with
  | nil => simp [splitAfterLast] at h
  | cons x rest ih =>
    simp only [splitAfterLast] at h
    split at h
    · rename_i f b hr
      simp only [Option.some.injEq, Prod.mk.injEq] at h
      obtain ⟨rfl, rfl⟩ := h
      simp [ih hr]
    · split at h
      · simp only [Option.some.injEq, Prod.mk.injEq] at h
        obtain ⟨rfl, rfl⟩ := h
        rfl
      · simp at h

theorem squeeze_takeWhile_isBlank (s : List Char) : squeeze (s.takeWhile isBlank) = [] := by
  induction s with
  | nil => rfl
  | cons c s ih =>
    by_cases hc : isBlank c = true <;> simp_all [squeeze]

theorem Piece.read_char {c : Char} {s written rest : List Char} :
    (Piece.char c).read s = some (written, rest) ↔
      ∃ x, foldLetter x = c ∧ s = x :: rest ∧ written = [x] := by
  cases s with
  | nil => simp [Piece.read]
  | cons x s =>
    simp only [Piece.read, Option.ite_none_right_eq_some, Option.some.injEq, Prod.mk.injEq]
    constructor
    · rintro ⟨hx, rfl, rfl⟩
      exact ⟨x, hx, rfl, rfl⟩
    · rintro ⟨y, hy, hs, rfl⟩
      obtain ⟨rfl, rfl⟩ := List.cons.inj hs
      exact ⟨hy, rfl, rfl⟩

/-- A piece reads a beginning of the text. What it writes differs from what it reads in blanks only.
-/
theorem Piece.exists_passed {p : Piece} {s written rest : List Char}
    (h : p.read s = some (written, rest)) :
    ∃ passed, passed ++ rest = s ∧ squeeze written = squeeze passed := by
  cases p with
  | char c =>
    obtain ⟨x, -, rfl, rfl⟩ := Piece.read_char.mp h
    exact ⟨[x], rfl, rfl⟩
  | gap least width =>
    simp only [Piece.read, Option.ite_none_left_eq_some, Option.some.injEq, Prod.mk.injEq] at h
    obtain ⟨-, rfl, rfl⟩ := h
    refine ⟨s.takeWhile isBlank, List.takeWhile_append_dropWhile, ?_⟩
    cases width with
    | none => rfl
    | some n => rw [squeeze_blanks, squeeze_takeWhile_isBlank]
  | letters =>
    simp only [Piece.read, Option.some.injEq, Prod.mk.injEq] at h
    obtain ⟨rfl, rfl⟩ := h
    exact ⟨_, List.takeWhile_append_dropWhile, rfl⟩
  | word =>
    cases s with
    | nil => simp [Piece.read] at h
    | cons x s =>
      simp only [Piece.read, Option.ite_none_right_eq_some, Option.some.injEq, Prod.mk.injEq] at h
      obtain ⟨-, rfl, rfl⟩ := h
      exact ⟨[x], rfl, rfl⟩
  | throughLast c =>
    simp only [Piece.read, Option.map_eq_some_iff, Prod.mk.injEq, Prod.exists] at h
    obtain ⟨front, back, hs, rfl, rfl⟩ := h
    refine ⟨front, ?_, rfl⟩
    rw [← List.append_assoc, splitAfterLast_eq hs, List.takeWhile_append_dropWhile]
  | wordEnd =>
    cases s with
    | nil => simp_all [Piece.read]
    | cons x s =>
      simp only [Piece.read, Option.ite_none_left_eq_some, Option.some.injEq, Prod.mk.injEq] at h
      obtain ⟨-, rfl, rfl⟩ := h
      exact ⟨[], rfl, rfl⟩
  | textEnd =>
    simp only [Piece.read, Option.ite_none_right_eq_some, List.isEmpty_iff, Option.some.injEq,
      Prod.mk.injEq] at h
    obtain ⟨rfl, rfl, rfl⟩ := h
    exact ⟨[], rfl, rfl⟩

/-- What a piece writes, and what it leaves, together hold the characters that were there. -/
theorem Piece.squeeze_read {p : Piece} {s written rest : List Char}
    (h : p.read s = some (written, rest)) : squeeze written ++ squeeze rest = squeeze s := by
  obtain ⟨passed, rfl, hwritten⟩ := Piece.exists_passed h
  rw [hwritten, squeeze_append]

/-- The first piece is read, and the others after it. -/
theorem Pattern.read_cons_eq_some {q : Piece} {ps : Pattern} {s written rest : List Char} :
    Pattern.read (q :: ps) s = some (written, rest) ↔
      ∃ first middle others, q.read s = some (first, middle) ∧
        ps.read middle = some (others, rest) ∧ first ++ others = written := by
  rw [Pattern.read]
  constructor
  · intro h
    split at h
    · cases h
    · rename_i first middle hq
      split at h
      · cases h
      · rename_i others rest' hps
        obtain ⟨rfl, rfl⟩ := Prod.mk.inj (Option.some.inj h)
        exact ⟨first, middle, others, hq, hps, rfl⟩
  · rintro ⟨first, middle, others, hq, hps, rfl⟩
    simp only [hq, hps]

/-- What a pattern writes, and what it leaves, together hold the characters that were there. -/
theorem Pattern.squeeze_read {p : Pattern} {s written rest : List Char}
    (h : p.read s = some (written, rest)) : squeeze written ++ squeeze rest = squeeze s := by
  induction p generalizing s written with
  | nil => simp_all [Pattern.read]
  | cons q ps ih =>
    obtain ⟨first, middle, others, hq, hps, rfl⟩ := Pattern.read_cons_eq_some.mp h
    rw [squeeze_append, List.append_assoc, ih hps, Piece.squeeze_read hq]

/-- A pattern that begins with a gap and does not match at a blank does not match right after it. -/
theorem Pattern.read_blank_eq_none {least : Nat} {width : Option Nat} {ps : Pattern} {c : Char}
    {s : List Char} (hc : isBlank c = true)
    (h : Pattern.read (.gap least width :: ps) (c :: s) = none) :
    Pattern.read (.gap least width :: ps) s = none := by
  simp only [Pattern.read, Piece.read, List.takeWhile_cons, List.dropWhile_cons, hc, if_true,
    List.length_cons] at h ⊢
  by_cases hs : (s.takeWhile isBlank).length < least
  · simp [hs]
  · have hl : ¬ (s.takeWhile isBlank).length + 1 < least := by omega
    simp only [hs, hl, if_false] at h ⊢
    cases hr : Pattern.read ps (s.dropWhile isBlank) with
    | none => rfl
    | some r => simp [hr] at h

/-- What is passed and what is left make up the text. -/
theorem Pattern.advance_append (p : Pattern) (c : Char) (s : List Char) :
    (p.advance c s).1 ++ (p.advance c s).2 = c :: s := by
  simp only [Pattern.advance]
  split
  · split
    · simp [List.takeWhile_append_dropWhile]
    · rfl
  · rfl

/-- Replacing matches changes nothing but blanks. -/
theorem Pattern.squeeze_everywhere (p : Pattern) (s : List Char) :
    squeeze (p.everywhere s) = squeeze s := by
  have h (fuel : Nat) (s : List Char) : squeeze (p.everywhereWithin fuel s) = squeeze s := by
    induction fuel generalizing s with
    | zero => rfl
    | succ fuel ih =>
      cases s with
      | nil => rfl
      | cons c s =>
        simp only [Pattern.everywhereWithin]
        split
        · rename_i w r hr
          rw [squeeze_append, ih, Pattern.squeeze_read hr]
        · rw [squeeze_append, ih, ← squeeze_append, p.advance_append]
  exact h _ s

/-- Replacing the first match changes nothing but blanks. -/
theorem Pattern.squeeze_once (p : Pattern) (s : List Char) : squeeze (p.once s) = squeeze s := by
  have h (fuel : Nat) (s : List Char) : squeeze (p.onceWithin fuel s) = squeeze s := by
    induction fuel generalizing s with
    | zero => rfl
    | succ fuel ih =>
      cases s with
      | nil => rfl
      | cons c s =>
        simp only [Pattern.onceWithin]
        split
        · rename_i w r hr
          rw [squeeze_append, Pattern.squeeze_read hr]
        · rw [squeeze_append, ih, ← squeeze_append, p.advance_append]
  exact h _ s

end FortranLayout.Text
