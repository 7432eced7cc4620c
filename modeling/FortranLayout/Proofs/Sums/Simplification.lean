import FortranLayout.Proofs.Sums.Reading
import Mathlib.Algebra.BigOperators.Group.List.Basic
import Mathlib.Algebra.Ring.Int.Defs

/-!
# The steps of simplifying a sum

What each step does to the terms: cancelling leaves terms of the sum (`mem_of_mem_foldl_cancel`),
the total is that of all integers and stays in range (`total?_eq_some`), and the result has the
other terms and the total (`perm_of_simplify?`), all of them as they would be read
(`wellRead_of_simplify?`).
-/

namespace FortranLayout

/-! ## Integers -/

namespace Text

/-- The digits of a number denote it. -/
theorem decimal?_repr (n : Nat) : decimal? (Nat.repr n).toList = some n := by
  have hdigits : ∀ c ∈ Nat.toDigits 10 n, c.isDigit = true := fun c hc =>
    Nat.isDigit_of_mem_toDigits (by decide) (by decide) hc
  have hvalue : decimalValue (Nat.toDigits 10 n) = Nat.ofDigitChars 10 (Nat.toDigits 10 n) 0 := by
    unfold decimalValue Nat.ofDigitChars
    simp only [Nat.mul_comm]
  rw [Nat.toList_repr, decimal?, hvalue, Nat.ofDigitChars_ten_toDigits,
    List.all_eq_true.mpr hdigits]
  simp

theorem isDigit_of_mem_repr {n : Nat} {c : Char} (hc : c ∈ (Nat.repr n).toList) :
    c.isDigit = true := by
  rw [Nat.toList_repr] at hc
  exact Nat.isDigit_of_mem_toDigits (by decide) (by decide) hc

theorem fitsSigned_iff {n : Int} :
    fitsSigned n = true ↔ -0x8000000000000000 ≤ n ∧ n < 0x8000000000000000 := by
  simp [fitsSigned]

end Text

namespace Term

variable {t : Term} {n : Int}

theorem integer?_eq_some_iff :
    t.integer? = some n ↔ ∃ m : Nat, Text.decimal? t.operand = some m ∧ Text.fitsSigned m = true ∧
      n = if t.negative then -(m : Int) else m := by
  rw [integer?]
  cases Text.decimal? t.operand with
  | none => simp
  | some m =>
    simp only [Option.some.injEq, exists_eq_left']
    split
    · rename_i hfits
      simp only [hfits, true_and, Option.some.injEq, eq_comm]
    · rename_i hfits
      simp [hfits]

theorem ofInt_signed (n : Int) :
    (if (ofInt n).negative then -(n.natAbs : Int) else n.natAbs) = n := by
  rw [ofInt]
  by_cases hneg : n < 0
  · rw [decide_eq_true hneg, if_pos rfl]
    omega
  · rw [decide_eq_false hneg, if_neg Bool.false_ne_true]
    omega

/-- The term of an integer is read as that integer, if it is read as one: its digits may be out of
range without the sign. -/
theorem eq_of_integer?_ofInt {m : Int} (h : (ofInt n).integer? = some m) : m = n := by
  obtain ⟨k, hk, -, rfl⟩ := integer?_eq_some_iff.mp h
  obtain rfl := Option.some.inj ((Text.decimal?_repr n.natAbs).symm.trans hk)
  exact ofInt_signed n

end Term

namespace Sum

variable {sum kept simple : Sum} {t : Term} {total : Int}

theorem wellRead_ofInt (n : Int) : WellRead (Term.ofInt n) := by
  have hdigit : ∀ c ∈ (Term.ofInt n).operand, c.isDigit = true :=
    fun c hc => Text.isDigit_of_mem_repr hc
  refine ⟨⟨?_, fun c hc => ?_⟩, fun c hc => ?_⟩
  · intro (hempty : (Nat.repr n.natAbs).toList = [])
    have hdecimal := Text.decimal?_repr n.natAbs
    rw [hempty] at hdecimal
    cases hdecimal
  · cases hsign : isSign c with
    | false => rfl
    | true =>
      have hc' := hdigit c hc
      rw [isSign, Bool.or_eq_true, beq_iff_eq, beq_iff_eq] at hsign
      rcases hsign with rfl | rfl <;> exact absurd hc' (by decide)
  · have hc' := hdigit c hc
    refine isRead_of_lt ?_ ?_
    · rintro rfl
      exact absurd hc' (by decide)
    · rw [Char.isDigit, Bool.and_eq_true, decide_eq_true_eq, decide_eq_true_eq] at hc'
      exact Nat.lt_of_le_of_lt (UInt32.le_iff_toNat_le.mp hc'.2) (by decide)

/-! ## Cancelling -/

/-- A term of what is left is one of the sum. -/
theorem mem_of_mem_foldl_cancel (ht : t ∈ sum.foldl cancel kept) : t ∈ kept ∨ t ∈ sum := by
  induction sum generalizing kept with
  | nil => exact .inl ht
  | cons u sum ih =>
    rcases ih ht with ht | ht
    · rw [cancel] at ht
      split at ht
      · exact .inl (List.mem_of_mem_erase ht)
      · rcases List.mem_append.mp ht with ht | ht
        · exact .inl ht
        · exact .inr (List.mem_singleton.mp ht ▸ List.mem_cons_self)
    · exact .inr (List.mem_cons_of_mem _ ht)

/-! ## Adding up -/

theorem addInRange?_eq_some {a b : Int} (h : addInRange? a b = some total) :
    total = a + b ∧ Text.fitsSigned total = true := by
  rw [addInRange?] at h
  split at h
  · rename_i hfits
    obtain rfl := Option.some.inj h
    exact ⟨rfl, hfits⟩
  · cases h

/-- Every partial total is in range, so the total is; and it is the sum of the integers. -/
theorem foldlM_addInRange? {ns : List Int} {start : Int} (hstart : Text.fitsSigned start = true)
    (h : ns.foldlM addInRange? start = some total) :
    total = start + ns.sum ∧ Text.fitsSigned total = true := by
  induction ns generalizing start with
  | nil =>
    obtain rfl := Option.some.inj h
    exact ⟨by simp, hstart⟩
  | cons n ns ih =>
    rw [List.foldlM_cons, Option.bind_eq_bind, Option.bind_eq_some_iff] at h
    obtain ⟨next, hnext, hrest⟩ := h
    obtain ⟨rfl, hfits⟩ := addInRange?_eq_some hnext
    obtain ⟨htotal, hrange⟩ := ih hfits hrest
    refine ⟨?_, hrange⟩
    rw [htotal, List.sum_cons, Int.add_assoc]

theorem total?_eq_some (h : total? sum = some total) :
    total = (sum.filterMap Term.integer?).sum ∧ Text.fitsSigned total = true := by
  obtain ⟨htotal, hfits⟩ := foldlM_addInRange? (by decide) h
  exact ⟨by rw [htotal, Int.zero_add], hfits⟩

/-! ## The result -/

theorem mem_collect (ht : t ∈ collect sum total) :
    (t ∈ sum ∧ t.integer? = none) ∨ (total ≠ 0 ∧ t = Term.ofInt total) := by
  rcases List.mem_append.mp ht with ht | ht
  · obtain ⟨hmem, hnone⟩ := List.mem_filter.mp ht
    exact .inl ⟨hmem, Option.isNone_iff_eq_none.mp hnone⟩
  · split at ht
    · cases ht
    · rename_i hne
      exact .inr ⟨hne, List.mem_singleton.mp ht⟩

theorem simplify?_eq_some_iff :
    simplify? sum = some simple ↔ ∃ total, total? (sum.foldl cancel []) = some total ∧
      (collect (sum.foldl cancel []) total).mergeSort Term.sorted = simple :=
  Option.map_eq_some_iff

theorem perm_of_simplify? (h : simplify? sum = some simple) :
    ∃ total, total? (sum.foldl cancel []) = some total ∧
      simple.Perm (collect (sum.foldl cancel []) total) := by
  obtain ⟨total, htotal, rfl⟩ := simplify?_eq_some_iff.mp h
  exact ⟨total, htotal, List.mergeSort_perm _ _⟩

theorem mem_of_mem_simplify? (h : simplify? sum = some simple) (ht : t ∈ simple) :
    t ∈ sum ∨ ∃ total, t = Term.ofInt total := by
  obtain ⟨total, -, hperm⟩ := perm_of_simplify? h
  rcases mem_collect (hperm.mem_iff.mp ht) with ⟨hkept, -⟩ | ⟨-, rfl⟩
  · exact .inl ((mem_of_mem_foldl_cancel hkept).resolve_left List.not_mem_nil)
  · exact .inr ⟨total, rfl⟩

theorem wellRead_of_simplify? (h : simplify? sum = some simple) (hsum : ∀ t ∈ sum, WellRead t) :
    ∀ t ∈ simple, WellRead t := by
  intro t ht
  rcases mem_of_mem_simplify? h ht with ht | ⟨total, rfl⟩
  · exact hsum t ht
  · exact wellRead_ofInt total

end Sum

end FortranLayout
