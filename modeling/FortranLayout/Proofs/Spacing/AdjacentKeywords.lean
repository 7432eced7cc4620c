import FortranLayout.Proofs.Spacing.Keywords

/-!
# Joining and parting adjacent keywords

Joining the words of a keyword may bring letters together that spell a word, and parting them may
tear one apart. For the keywords of the table neither happens: the two letters at a seam are
neighbours in none of the words of their entry. So the words are found at the same places whatever
blanks have been set between them, and of several widths set one after the other the last one counts
(`AdjacentKeyword.apply_apply`).
-/

namespace FortranLayout

namespace Text

variable {m n : Nat} {w : String} {words : List String} {u rest : List Char} {ws : List (List Char)}
  {p : Pattern}

/-- A word is read in any letter case, and kept. -/
theorem Pattern.read_spelling_append (h : u.map foldLetter = w.toList) :
    Pattern.read (Pattern.spelling w ++ p) (u ++ rest) = (p.read rest).map fun m =>
      (u ++ m.1, m.2) := by
  rw [spelling, ← h]
  clear h
  induction u with
  | nil => simp
  | cons x u ih =>
    rw [List.map_cons, List.map_cons, List.cons_append, List.cons_append, read_char_cons,
      if_pos rfl, ih, Option.map_map]
    rfl

/-- A gap before a character is read to that character, and set. -/
theorem Pattern.read_gap_blanks_append (h : rest.head?.any isBlank = false) :
    Pattern.read (.gap 0 (some n) :: p) (blanks m ++ rest) =
      (p.read rest).map fun q => (blanks n ++ q.1, q.2) := by
  have hdrop : (blanks m ++ rest).dropWhile isBlank = rest := by
    rw [List.dropWhile_append_of_pos fun _ => isBlank_of_mem_blanks]
    cases rest with
    | nil => rfl
    | cons x rest => exact List.dropWhile_cons_of_neg (by simpa using h)
  simp only [read, Piece.read, Nat.not_lt_zero, if_false, hdrop]
  cases p.read rest <;> rfl

theorem head?_any_isBlank_of_spelled (hw : w.toList ≠ [] ∧ ' ' ∉ w.toList)
    (h : u.map foldLetter = w.toList)
    (rest : List Char) : (u ++ rest).head?.any isBlank = false := by
  cases u with
  | nil => exact absurd h.symm hw.1
  | cons x u =>
    have hfold : foldLetter ' ' = ' ' := by decide
    rw [List.cons_append, List.head?_cons, Option.any_some, isBlank, beq_eq_false_iff_ne]
    rintro rfl
    rw [← h, List.map_cons, hfold] at hw
    exact hw.2 List.mem_cons_self

/-- Words with blanks between them are read in any letter case, and the blanks are set. -/
theorem Pattern.read_words (hwords : ∀ w ∈ words, w.toList ≠ [] ∧ ' ' ∉ w.toList)
    (h : ws.map (·.map foldLetter) = words.map String.toList) (m n : Nat) (rest : List Char) :
    Pattern.read ([Piece.gap 0 (some n)].intercalate (words.map Pattern.spelling))
        ((blanks m).intercalate ws ++ rest) = some ((blanks n).intercalate ws, rest) := by
  induction words generalizing ws with
  | nil =>
    obtain rfl : ws = [] := by simpa using h
    rfl
  | cons w words ih =>
    obtain ⟨u, us, rfl⟩ : ∃ u us, ws = u :: us := by
      cases ws with
      | nil => cases h
      | cons u us => exact ⟨u, us, rfl⟩
    rw [List.map_cons, List.map_cons, List.cons.injEq] at h
    obtain ⟨hu, hus⟩ := h
    have ih := ih (fun w' hw' => hwords w' (List.mem_cons_of_mem w hw')) hus
    cases words with
    | nil =>
      obtain rfl : us = [] := by simpa using hus
      have hread : Pattern.read (Pattern.spelling w ++ []) (u ++ rest) = _ :=
        Pattern.read_spelling_append hu
      simpa [List.intercalate, read] using hread
    | cons w' words =>
      obtain ⟨u', us, rfl⟩ : ∃ u' us', us = u' :: us' := by
        cases us with
        | nil => cases hus
        | cons u' us' => exact ⟨u', us', rfl⟩
      have hhead : ((blanks m).intercalate (u' :: us) ++ rest).head?.any isBlank = false := by
        rw [List.map_cons, List.map_cons, List.cons.injEq] at hus
        have hw' := hwords w' (by simp)
        cases us with
        | nil =>
          rw [List.intercalate_singleton]
          exact head?_any_isBlank_of_spelled hw' hus.1 rest
        | cons u'' us =>
          rw [List.intercalate_cons_cons, List.append_assoc, List.append_assoc]
          exact head?_any_isBlank_of_spelled hw' hus.1 _
      rw [List.map_cons, List.map_cons, List.intercalate_cons_cons, ← List.map_cons,
        List.intercalate_cons_cons, List.intercalate_cons_cons, List.append_assoc,
        List.append_assoc, List.append_assoc, read_spelling_append hu, List.singleton_append,
        read_gap_blanks_append hhead, ih]
      simp

end Text

open Text (blanks squeeze foldLetter Pattern)

namespace AdjacentKeyword

variable {k : AdjacentKeyword}

/-- The texts are the words of the entry, in any letter case. -/
def Spelled (k : AdjacentKeyword) (ws : List (List Char)) : Prop :=
  ws.map (·.map foldLetter) = k.words.map String.toList

instance (k : AdjacentKeyword) (ws : List (List Char)) : Decidable (k.Spelled ws) :=
  inferInstanceAs (Decidable (_ = _))

theorem no_blank_in_words (k : AdjacentKeyword) (hk : k ∈ all) :
    ∀ w ∈ k.words, w.toList ≠ [] ∧ ' ' ∉ w.toList := by
  revert k
  decide

/-- Where the words of the entry stand, the blanks between them are set, and the search goes on
behind them. -/
theorem apply_words (hk : k ∈ all) {ws : List (List Char)} (hws : k.Spelled ws) (m n : Nat)
    (rest : List Char) :
    k.apply n ((blanks m).intercalate ws ++ rest) = (blanks n).intercalate ws ++
      k.apply n rest := by
  obtain ⟨l, ls, hls, -, -, -⟩ := exists_sweep hk
  have hmem : .char l.2 ∈ k.pattern n := by
    rw [pattern_eq hk, hls, Text.Chain.pattern]
    simp
  exact Pattern.everywhere_of_read hmem (Pattern.read_words (no_blank_in_words k hk) hws m n rest)

/-- Of two widths that are set between adjacent keywords one after the other, the last one counts.
Setting a width changes nothing in a text but the number of blanks: the words, wherever the search
from the left comes upon them, get so many blanks between them. -/
theorem apply_apply (hk : k ∈ all) (m n : Nat) (s : List Char) :
    k.apply n (k.apply m s) = k.apply n s ∧ squeeze (k.apply m s) = squeeze s ∧
      ∀ ws rest, k.Spelled ws →
        k.apply m ((blanks n).intercalate ws ++ rest) = (blanks m).intercalate ws ++
          k.apply m rest := by
  refine ⟨?_, Pattern.squeeze_everywhere _ s, fun ws rest hws => apply_words hk hws n m rest⟩
  obtain ⟨l, ls, hls, htight, hsound, happly⟩ := exists_sweep hk
  have hfree : ∀ j, Text.Between (squeeze s) (Text.Paired (Text.Chain.ties (l :: ls))) j →
      ¬ Text.Chain.Touched false l ls (squeeze s) j := by
    intro j hj
    rw [Text.Chain.touched_of_tight htight, ← hls]
    rw [← hls] at hj
    exact hj.not_between (seams_not_mem_ties k hk)
  have hlast :=
    Text.Chain.everywhere_everywhere (γ := Text.gapsOf s) hsound (Text.inked_squeeze s) hfree m n
  rwa [Text.spread_gapsOf, ← happly, ← happly] at hlast

/-- The entry for END SUBROUTINE. -/
def endSubroutine : AdjacentKeyword :=
  { words := ["end", "subroutine"], target := .kind (.endUnitStmt .subroutine) }

/-- With a long s, and with a second pair of words that begins in the first and so is not found. -/
theorem apply_apply_endSubroutine :
    endSubroutine ∈ all ∧
      endSubroutine.apply 2 (endSubroutine.apply 0 "End ſubroutinEND   Subroutine".toList) =
        "End  ſubroutinEND   Subroutine".toList ∧
      squeeze (endSubroutine.apply 0 "End ſubroutinEND   Subroutine".toList) =
        "EndſubroutinENDSubroutine".toList ∧
      endSubroutine.apply 0 "END  SUBROUTINE F".toList =
        "ENDSUBROUTINE".toList ++ endSubroutine.apply 0 " F".toList := by
  have hmem : endSubroutine ∈ all := by decide
  obtain ⟨hlast, hsqueeze, hwords⟩ := apply_apply hmem 0 2 "End ſubroutinEND   Subroutine".toList
  exact ⟨hmem, hlast.trans (by decide +kernel), hsqueeze.trans (by decide +kernel),
    hwords ["END".toList, "SUBROUTINE".toList] " F".toList (by decide)⟩

end AdjacentKeyword

end FortranLayout
