import FortranLayout.Text.Pattern

/-!
# Replacing matches, one match at a time

A pattern that has a character in it matches at least that character, so the number of steps allowed
to `Pattern.everywhere` and `Pattern.once` is never used up, and both can be followed match by
match.
-/

namespace FortranLayout.Text

/-- What a piece leaves is no longer than what it reads. -/
theorem Piece.length_read_le {p : Piece} {s written rest : List Char}
    (h : p.read s = some (written, rest)) : rest.length ≤ s.length := by
  obtain ⟨passed, rfl, -⟩ := Piece.exists_passed h
  rw [List.length_append]
  exact Nat.le_add_left _ _

namespace Pattern

variable {p : Pattern} {s written rest : List Char} {a : Char}

theorem length_read_le (h : p.read s = some (written, rest)) : rest.length ≤ s.length := by
  induction p generalizing s written with
  | nil => simp_all [read]
  | cons q p ih =>
    obtain ⟨first, middle, others, hq, hp, -⟩ := read_cons_eq_some.mp h
    exact Nat.le_trans (ih hp) (Piece.length_read_le hq)

/-- A match with a character in it is not empty. -/
theorem length_read_lt (ha : .char a ∈ p) (h : p.read s = some (written, rest)) :
    rest.length < s.length := by
  induction p generalizing s written with
  | nil => simp at ha
  | cons q p ih =>
    obtain ⟨first, middle, others, hq, hp, -⟩ := read_cons_eq_some.mp h
    rcases List.mem_cons.mp ha with rfl | ha
    · obtain ⟨x, -, rfl, -⟩ := Piece.read_char.mp hq
      exact Nat.lt_succ_of_le (length_read_le hp)
    · exact Nat.lt_of_lt_of_le (ih ha hp) (Piece.length_read_le hq)

theorem length_advance_le (p : Pattern) (c : Char) (s : List Char) :
    (p.advance c s).2.length ≤ s.length := by
  have hdrop := (List.dropWhile_sublist isBlank (l := s)).length_le
  simp only [advance]
  split
  · split
    · exact hdrop
    · exact Nat.le_refl _
  · exact Nat.le_refl _

/-- Any number of steps that is not too small gives the same. -/
theorem everywhereWithin_congr (ha : .char a ∈ p) {fuel fuel' : Nat} (h : s.length ≤ fuel)
    (h' : s.length ≤ fuel') : p.everywhereWithin fuel s = p.everywhereWithin fuel' s := by
  induction fuel generalizing fuel' s with
  | zero =>
    obtain rfl := List.length_eq_zero_iff.mp (Nat.le_zero.mp h)
    cases fuel' <;> rfl
  | succ fuel ih =>
    cases s with
    | nil => cases fuel' <;> rfl
    | cons c s =>
      rw [List.length_cons] at h h'
      obtain ⟨fuel', rfl⟩ : ∃ k, fuel' = k + 1 := ⟨fuel' - 1, by omega⟩
      rw [everywhereWithin, everywhereWithin]
      cases hr : p.read (c :: s) with
      | none =>
        have hle := p.length_advance_le c s
        have hrest : p.everywhereWithin fuel (p.advance c s).2 =
            p.everywhereWithin fuel' (p.advance c s).2 := ih (by omega) (by omega)
        dsimp only
        rw [hrest]
      | some m =>
        have hlt := length_read_lt ha hr
        rw [List.length_cons] at hlt
        have hrest : p.everywhereWithin fuel m.2 = p.everywhereWithin fuel' m.2 :=
          ih (by omega) (by omega)
        dsimp only
        rw [hrest]

theorem onceWithin_congr {fuel fuel' : Nat} (h : s.length ≤ fuel) (h' : s.length ≤ fuel') :
    p.onceWithin fuel s = p.onceWithin fuel' s := by
  induction fuel generalizing fuel' s with
  | zero =>
    obtain rfl := List.length_eq_zero_iff.mp (Nat.le_zero.mp h)
    cases fuel' <;> rfl
  | succ fuel ih =>
    cases s with
    | nil => cases fuel' <;> rfl
    | cons c s =>
      rw [List.length_cons] at h h'
      obtain ⟨fuel', rfl⟩ : ∃ k, fuel' = k + 1 := ⟨fuel' - 1, by omega⟩
      rw [onceWithin, onceWithin]
      cases hr : p.read (c :: s) with
      | none =>
        have hle := p.length_advance_le c s
        have hrest : p.onceWithin fuel (p.advance c s).2 = p.onceWithin fuel' (p.advance c s).2 :=
          ih (by omega) (by omega)
        dsimp only
        rw [hrest]
      | some m => rfl

@[simp] theorem everywhere_nil (p : Pattern) : p.everywhere [] = [] := rfl

/-- A match at the start is replaced, and the search goes on behind it. -/
theorem everywhere_of_read (ha : .char a ∈ p) (h : p.read s = some (written, rest)) :
    p.everywhere s = written ++ p.everywhere rest := by
  have hlt := length_read_lt ha h
  cases s with
  | nil => simp at hlt
  | cons c s =>
    rw [List.length_cons] at hlt
    rw [everywhere, List.length_cons, everywhereWithin, h]
    dsimp only
    rw [everywhere, everywhereWithin_congr ha (by omega) (Nat.le_refl _)]

/-- Where there is no match at the start, the search goes on at the next place. -/
theorem everywhere_of_none (ha : .char a ∈ p) {c : Char} (h : p.read (c :: s) = none) :
    p.everywhere (c :: s) = (p.advance c s).1 ++ p.everywhere (p.advance c s).2 := by
  rw [everywhere, List.length_cons, everywhereWithin, h]
  dsimp only
  rw [everywhere, everywhereWithin_congr ha (p.length_advance_le c s) (Nat.le_refl _)]

theorem once_of_read (h : p.read s = some (written, rest)) (hs : s ≠ []) :
    p.once s = written ++ rest := by
  cases s with
  | nil => exact absurd rfl hs
  | cons c s => rw [once, List.length_cons, onceWithin, h]

theorem once_of_none {c : Char} (h : p.read (c :: s) = none) :
    p.once (c :: s) = (p.advance c s).1 ++ p.once (p.advance c s).2 := by
  rw [once, List.length_cons, onceWithin, h]
  dsimp only
  rw [once, onceWithin_congr (p.length_advance_le c s) (Nat.le_refl _)]

/-- Where the search for a pattern finds nothing, it leaves what it passes and goes on. -/
structure Seeks (p : Pattern) (search : List Char → List Char) : Prop where
  nil : search [] = []
  pass : ∀ {c s}, p.read (c :: s) = none →
    search (c :: s) = (p.advance c s).1 ++ search (p.advance c s).2

theorem seeks_everywhere (ha : .char a ∈ p) : Seeks p p.everywhere :=
  ⟨everywhere_nil p, everywhere_of_none ha⟩

theorem seeks_once (p : Pattern) : Seeks p p.once := ⟨rfl, once_of_none⟩

/-- The search for a pattern that begins with a character passes blanks one by one. -/
theorem Seeks.blanks_append {search : List Char → List Char} (hs : Seeks (.char a :: p) search)
    (ha : foldLetter ' ' ≠ a) (m : Nat) (s : List Char) :
    search (blanks m ++ s) = blanks m ++ search s := by
  induction m with
  | zero => rfl
  | succ m ih =>
    have hnone : read (.char a :: p) (' ' :: (blanks m ++ s)) = none := by
      simp [read, Piece.read, ha]
    have hadvance : advance (.char a :: p) ' ' (blanks m ++ s) = ([' '], blanks m ++ s) := rfl
    rw [blanks, List.replicate_succ, List.cons_append, ← blanks, hs.pass hnone, hadvance, ih]
    rfl

end Pattern

end FortranLayout.Text
