import FortranLayout.Proofs.Matches
import FortranLayout.Spacing.Gaps

/-!
# The blanks at the start of a line

Indentation and alignment write a number of blanks after every newline of a tail. This is a pattern,
read here character by character.
-/

namespace FortranLayout

namespace Text

theorem toLower_eq_newline {c : Char} (h : c.toLower = '\n') : c = '\n' := by
  unfold Char.toLower at h
  split at h
  · rename_i hupper
    have hval : c.val + ('a'.val - 'A'.val) = '\n'.val := congrArg Char.val h
    have hnat := congrArg UInt32.toNat hval
    have hle : 65 ≤ c.val.toNat := hupper.1
    have hge : c.val.toNat ≤ 90 := hupper.2
    rw [UInt32.toNat_add] at hnat
    change (c.val.toNat + 32) % 2 ^ 32 = 10 at hnat
    omega
  · exact h

theorem foldLetter_eq_newline {c : Char} : foldLetter c = '\n' ↔ c = '\n' := by
  constructor
  · intro h
    rw [foldLetter] at h
    split at h
    · cases h
    · split at h
      · cases h
      · exact toLower_eq_newline h
  · rintro rfl
    decide

variable {n : Nat} {c : Char} {s : List Char}

theorem Pattern.read_after_newline :
    (Gaps.after '\n' n).read (c :: s) =
      if c = '\n' then some ('\n' :: blanks n, s.dropWhile isBlank) else none := by
  by_cases hc : c = '\n'
  · subst hc
    simp [Gaps.after, Pattern.read, Piece.read, foldLetter_eq_newline]
  · simp [Gaps.after, Pattern.read, Piece.read, foldLetter_eq_newline, hc]

theorem Pattern.everywhere_after_newline (n : Nat) (s : List Char) :
    (Gaps.after '\n' n).everywhere ('\n' :: s) =
      '\n' :: blanks n ++ (Gaps.after '\n' n).everywhere (s.dropWhile isBlank) := by
  have hread : (Gaps.after '\n' n).read ('\n' :: s) =
      some ('\n' :: blanks n, s.dropWhile isBlank) := by
    rw [read_after_newline, if_pos rfl]
  exact everywhere_of_read (a := '\n') (by simp [Gaps.after]) hread

theorem Pattern.everywhere_after_newline_of_ne (hc : c ≠ '\n') (n : Nat) (s : List Char) :
    (Gaps.after '\n' n).everywhere (c :: s) = c :: (Gaps.after '\n' n).everywhere s := by
  have hread : (Gaps.after '\n' n).read (c :: s) = none := by rw [read_after_newline, if_neg hc]
  exact everywhere_of_none (a := '\n') (by simp [Gaps.after]) hread

/-- Induction as the pattern reads: after a newline it goes on behind the blanks. -/
theorem lines_induct {motive : List Char → Prop} (nil : motive [])
    (line : ∀ s, motive (s.dropWhile isBlank) → motive ('\n' :: s))
    (cons : ∀ c s, c ≠ '\n' → motive s → motive (c :: s)) (s : List Char) : motive s := by
  induction hl : s.length using Nat.strongRecOn generalizing s with
  | ind l ih =>
    cases s with
    | nil => exact nil
    | cons c s =>
      rw [List.length_cons] at hl
      by_cases hc : c = '\n'
      · have hdrop := (List.dropWhile_sublist isBlank (l := s)).length_le
        exact hc ▸ line s (ih _ (by omega) _ rfl)
      · exact cons c s hc (ih _ (by omega) _ rfl)

theorem isBlank_head?_dropWhile (s : List Char) :
    ∀ c ∈ (s.dropWhile isBlank).head?, isBlank c = false := by
  intro c hc
  have hnot := List.head?_dropWhile_not isBlank s
  rw [hc] at hnot
  exact hnot

/-- Starting lines at a column keeps the first character. -/
theorem Pattern.head?_everywhere_after_newline (n : Nat) (s : List Char) :
    ((Gaps.after '\n' n).everywhere s).head? = s.head? := by
  cases s with
  | nil => rfl
  | cons c s =>
    by_cases hc : c = '\n'
    · rw [hc, everywhere_after_newline]
      rfl
    · rw [everywhere_after_newline_of_ne hc]
      rfl

theorem dropWhile_blanks_append (n : Nat) (h : ∀ c ∈ s.head?, isBlank c = false) :
    (blanks n ++ s).dropWhile isBlank = s := by
  rw [List.dropWhile_append_of_pos fun _ => isBlank_of_mem_blanks]
  cases s with
  | nil => rfl
  | cons c s => rw [List.dropWhile_cons_of_neg (by rw [h c rfl]; exact Bool.false_ne_true)]

/-- Starting lines at a column does away with the column at which they started before. -/
theorem Pattern.everywhere_everywhere_after_newline (n m : Nat) (s : List Char) :
    (Gaps.after '\n' n).everywhere ((Gaps.after '\n' m).everywhere s) =
      (Gaps.after '\n' n).everywhere s := by
  induction s using lines_induct with
  | nil => rfl
  | line s ih =>
    have hhead : ∀ b ∈ ((Gaps.after '\n' m).everywhere (s.dropWhile isBlank)).head?,
        isBlank b = false := by
      rw [head?_everywhere_after_newline]
      exact isBlank_head?_dropWhile s
    rw [everywhere_after_newline, List.cons_append, everywhere_after_newline,
      dropWhile_blanks_append m hhead, ih, everywhere_after_newline]
  | cons c s hc ih =>
    rw [everywhere_after_newline_of_ne hc, everywhere_after_newline_of_ne hc, ih,
      everywhere_after_newline_of_ne hc]

/-- Blanks do not count for newlines. -/
theorem hasNewline_of_squeeze {s t : List Char} (h : squeeze s = squeeze t) :
    hasNewline s = hasNewline t := by
  have hmem : ∀ s : List Char, '\n' ∈ squeeze s ↔ '\n' ∈ s := by
    intro s
    rw [squeeze, List.mem_filter]
    exact and_iff_left (by decide)
  rw [hasNewline, hasNewline, List.contains_eq_mem, List.contains_eq_mem,
    decide_eq_decide, ← hmem, h, hmem]

end Text

end FortranLayout
