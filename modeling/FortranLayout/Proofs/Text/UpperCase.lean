import FortranLayout.Text.CaseMap
import Mathlib.Data.List.Basic
import Mathlib.Data.Nat.Bitwise

/-!
# What upper case makes of a text

A character of a text in upper case is its own upper-case form, so that upper case is reached in one
step (`toUpper_toUpper`). Signs, digits, blanks and parentheses, which come before `A`, stay as they
are and are not made of anything else (`filter_toUpper`).

The tables beyond ASCII are evaluated once, with the code points that have another form collected as
the bits of a number.
-/

namespace FortranLayout.Text

/-! ## The tables -/

/-- The code points that a run covers. -/
def CaseRun.letters (r : CaseRun) : List Nat :=
  (List.range ((r.last - r.first) / r.step + 1)).map (r.first + · * r.step)

theorem CaseRun.mem_letters {r : CaseRun} {n : Nat} (h : r.covers n = true) : n ∈ r.letters := by
  simp only [CaseRun.covers, Bool.and_eq_true, decide_eq_true_eq, beq_iff_eq] at h
  obtain ⟨⟨hfirst, hlast⟩, hstep⟩ := h
  refine List.mem_map.mpr ⟨(n - r.first) / r.step, ?_, ?_⟩
  · have hle : (n - r.first) / r.step ≤ (r.last - r.first) / r.step :=
      Nat.div_le_div_right (by omega)
    exact List.mem_range.mpr (by omega)
  · rw [Nat.div_mul_cancel (Nat.dvd_of_mod_eq_zero hstep)]
    omega

/-- The code points beyond ASCII that have another upper-case form. -/
def casedCodes : List Nat := upperSpellings.map Prod.fst ++ upperRuns.flatMap CaseRun.letters

/-- The code points that the upper-case forms of these are made of. -/
def upperCodes : List Nat :=
  upperSpellings.flatMap Prod.snd ++
    upperRuns.flatMap fun r => r.letters.map fun n : Nat => (n + r.offset : Int).toNat

/-- Code points as the bits of a number. -/
def bits (codes : List Nat) : Nat := codes.foldr (fun n m => m ||| 1 <<< n) 0

theorem testBit_bits (codes : List Nat) (n : Nat) :
    (bits codes).testBit n = decide (n ∈ codes) := by
  induction codes with
  | nil => simp [bits]
  | cons m codes ih =>
    have hbit : (1 <<< m).testBit n = decide (n = m) := by
      rw [Nat.one_shiftLeft, Nat.testBit_two_pow]
      exact decide_eq_decide.mpr eq_comm
    rw [bits, List.foldr_cons, Nat.testBit_or, ← bits, ih, hbit]
    simp [Bool.or_comm]

/-- A code point of a letter in upper case: it has no other form and is not before `A`. -/
def isUpperCode (n : Nat) : Bool :=
  !(bits casedCodes).testBit n &&
    (('A'.toNat ≤ n && n ≤ 'Z'.toNat) || (0x80 ≤ n && n < 0xd800) || (0xdfff < n && n < 0x110000))

theorem isUpperCode_upperCodes : upperCodes.all isUpperCode = true := by decide +kernel

/-! ## Single characters -/

theorem upperChar_of_not_cased {c : Char} (hc : 0x80 ≤ c.toNat) (hcased : c.toNat ∉ casedCodes) :
    upperChar c = [c] := by
  rw [casedCodes, List.mem_append, not_or] at hcased
  have hspelling : upperSpellings.lookup c.toNat = none := by
    rw [List.lookup_eq_none_iff]
    rintro ⟨n, codes⟩ hp
    exact bne_iff_ne.mpr fun he => hcased.1 (List.mem_map.mpr ⟨_, hp, he.symm⟩)
  have hrun : upperRuns.find? (·.covers c.toNat) = none := by
    rw [List.find?_eq_none]
    exact fun r hr hcovers => hcased.2 (List.mem_flatMap.mpr ⟨r, hr, r.mem_letters hcovers⟩)
  rw [upperChar, if_neg (by omega), mapChar, hspelling, partner, hrun]
  simp

theorem upperChar_of_isUpperCode {n : Nat} (h : isUpperCode n = true) :
    upperChar (Char.ofNat n) = [Char.ofNat n] ∧ 'A'.toNat ≤ (Char.ofNat n).toNat := by
  simp only [isUpperCode, testBit_bits, Bool.and_eq_true, Bool.or_eq_true, Bool.not_eq_true',
    decide_eq_false_iff_not, decide_eq_true_eq] at h
  obtain ⟨hcased, hrange⟩ := h
  have hA : 'A'.toNat = 0x41 := rfl
  have hZ : 'Z'.toNat = 0x5a := rfl
  have hvalid : n.isValidChar := by
    rw [Nat.isValidChar]
    omega
  have hn : (Char.ofNat n).toNat = n := by
    rw [Char.ofNat, dif_pos hvalid]
    rfl
  rw [hn]
  refine ⟨?_, by omega⟩
  by_cases hascii : n < 0x80
  · -- a capital letter of ASCII
    have hcapital : ∀ n < 0x5b, 0x41 ≤ n → upperChar (Char.ofNat n) = [Char.ofNat n] := by decide
    exact hcapital n (by omega) (by omega)
  · exact upperChar_of_not_cased (by omega) (hn.symm ▸ hcased)

/-- Beyond ASCII, a character stays as it is or becomes what the tables have for it. -/
theorem upperChar_beyond_ascii {c : Char} (hc : ¬c.toNat < 0x80) :
    upperChar c = [c] ∨ ∀ d ∈ upperChar c, ∃ n ∈ upperCodes, d = Char.ofNat n := by
  rw [upperChar, if_neg hc, mapChar]
  cases hspelling : upperSpellings.lookup c.toNat with
  | some codes =>
    right
    intro d hd
    obtain ⟨n, hn, rfl⟩ := List.mem_map.mp hd
    obtain ⟨before, after, hspellings, -⟩ := List.lookup_eq_some_iff.mp hspelling
    have hmem : (c.toNat, codes) ∈ upperSpellings := by simp [hspellings]
    exact ⟨n, List.mem_append_left _ (List.mem_flatMap.mpr ⟨_, hmem, hn⟩), rfl⟩
  | none =>
    rw [partner]
    cases hrun : upperRuns.find? (·.covers c.toNat) with
    | some run =>
      right
      intro d hd
      have hcovers : run.covers c.toNat = true := by
        have hfound := List.find?_some hrun
        exact hfound
      refine ⟨_, List.mem_append_right _ ?_, List.mem_singleton.mp hd⟩
      exact List.mem_flatMap.mpr
        ⟨run, List.mem_of_find?_eq_some hrun, List.mem_map_of_mem (run.mem_letters hcovers)⟩
    | none =>
      left
      simp

/-- What stands in an upper-case form is in upper case itself, and before `A` only if it has not
changed. -/
theorem upperChar_of_mem {c d : Char} (h : d ∈ upperChar c) :
    upperChar d = [d] ∧ (d = c ∨ 'A'.toNat ≤ d.toNat) := by
  by_cases hascii : c.toNat < 0x80
  · have hall : ∀ n < 0x80, (upperChar (Char.ofNat n)).all (fun d =>
        upperChar d = [d] ∧ (d = Char.ofNat n ∨ 'A'.toNat ≤ d.toNat)) = true := by decide +kernel
    have hc := hall c.toNat hascii
    rw [Char.ofNat_toNat] at hc
    exact of_decide_eq_true (List.all_eq_true.mp hc d h)
  · rcases upperChar_beyond_ascii hascii with hself | hcodes
    · rw [hself, List.mem_singleton] at h
      subst h
      exact ⟨hself, .inl rfl⟩
    · obtain ⟨n, hn, rfl⟩ := hcodes d h
      have hupper := upperChar_of_isUpperCode (List.all_eq_true.mp isUpperCode_upperCodes n hn)
      exact ⟨hupper.1, .inr hupper.2⟩

theorem upperChar_of_lt {c : Char} (hc : c.toNat < 'A'.toNat) : upperChar c = [c] := by
  have hall : ∀ n < 'A'.toNat, upperChar (Char.ofNat n) = [Char.ofNat n] := by decide
  have hself := hall c.toNat hc
  rwa [Char.ofNat_toNat] at hself

/-! ## Texts -/

/-- Upper case is reached in one step. -/
theorem toUpper_toUpper (s : List Char) : toUpper (toUpper s) = toUpper s := by
  rw [toUpper, toUpper, List.flatMap_assoc]
  refine List.flatMap_congr fun c _ => ?_
  rw [← List.flatMap_singleton' (upperChar c), List.flatMap_assoc]
  refine List.flatMap_congr fun d hd => ?_
  rw [List.flatMap_singleton, (upperChar_of_mem hd).1]

/-- The characters before `A` stay where they are, and no others come from upper case. -/
theorem filter_toUpper {p : Char → Bool} (hp : ∀ c, p c = true → c.toNat < 'A'.toNat)
    (s : List Char) :
    (toUpper s).filter p = s.filter p := by
  induction s with
  | nil => rfl
  | cons c s ih =>
    have hchar : (upperChar c).filter p = [c].filter p := by
      by_cases hc : c.toNat < 'A'.toNat
      · rw [upperChar_of_lt hc]
      · have hnot : p c ≠ true := fun h => hc (hp c h)
        rw [List.filter_singleton, Bool.eq_false_iff.mpr hnot, List.filter_eq_nil_iff.mpr]
        · rfl
        · intro d hd hpd
          rcases (upperChar_of_mem hd).2 with rfl | hle
          · exact hnot hpd
          · exact absurd (hp d hpd) (by omega)
    rw [toUpper, List.flatMap_cons, List.filter_append, hchar, ← toUpper, ih, ← List.filter_append]
    rfl

end FortranLayout.Text
