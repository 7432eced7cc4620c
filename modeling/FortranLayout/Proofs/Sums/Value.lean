import FortranLayout.Proofs.Sums.Simplification

/-!
# The value of a sum

A text of the form `[sign] operand {sign operand}` denotes an integer once its operands do; digits
denote the number that they spell. Simplifying a sum keeps what it denotes
(`denotes_simplifySum_iff`).

Cancelling, adding up and sorting are each shown to keep the value of a list of terms; that a text
denotes the value of the terms read from it links the two (`Denotes.eq_value`, `denotes_render`).
-/

namespace FortranLayout

/-! ## Values -/

/-- Integers for operands, of which those made of digits stand for themselves. -/
structure Valuation where
  of : List Char → Int
  of_decimal : ∀ {a : List Char} {n : Nat}, Text.decimal? a = some n → of a = n

/-- The same integer for every operand that is not made of digits. -/
def Valuation.ofNames (k : Int) : Valuation where
  of a := (Text.decimal? a).elim k fun n => n
  of_decimal h := by rw [h]; rfl

namespace Sum

/-- What a sum as it is read denotes, term after term. -/
inductive Denotes (val : Valuation) : List Char → Int → Prop
  | operand {a : List Char} : IsOperand a → Denotes val a (val.of a)
  | positive {a : List Char} : IsOperand a → Denotes val ('+' :: a) (val.of a)
  | negative {a : List Char} : IsOperand a → Denotes val ('-' :: a) (-val.of a)
  | plus {s a : List Char} {v : Int} : Denotes val s v → IsOperand a →
      Denotes val (s ++ '+' :: a) (v + val.of a)
  | minus {s a : List Char} {v : Int} : Denotes val s v → IsOperand a →
      Denotes val (s ++ '-' :: a) (v - val.of a)

/-- What a text denotes that may be absent. -/
def DenotesPart (val : Valuation) : Option String → Int → Prop
  | none, v => v = 0
  | some s, v => Denotes val (reading s) v

/-- The value of a term. -/
def termValue (val : Valuation) (t : Term) : Int :=
  if t.negative then -val.of t.operand else val.of t.operand

/-- The value of the terms of a sum. -/
def value (val : Valuation) (sum : Sum) : Int := (sum.map (termValue val)).sum

variable {val : Valuation} {sum kept simple : Sum} {s : List Char} {t : Term} {v w total : Int}

@[simp] theorem value_nil : value val [] = 0 := rfl

@[simp] theorem value_cons : value val (t :: sum) = termValue val t + value val sum := by
  simp [value]

@[simp] theorem value_append {sum' : Sum} :
    value val (sum ++ sum') = value val sum + value val sum' := by
  simp [value]

theorem value_perm {sum' : Sum} (h : sum.Perm sum') : value val sum = value val sum' :=
  (h.map _).sum_eq

theorem termValue_opposite (t : Term) : termValue val t.opposite = -termValue val t := by
  obtain ⟨sign, a⟩ := t
  cases sign <;> simp [termValue, Term.opposite]

theorem value_map_opposite (sum : Sum) : value val (sum.map Term.opposite) = -value val sum := by
  induction sum with
  | nil => rfl
  | cons t sum ih =>
    rw [List.map_cons, value_cons, value_cons, termValue_opposite, ih]
    omega

theorem termValue_of_integer? {n : Int} (h : t.integer? = some n) : termValue val t = n := by
  obtain ⟨m, hm, -, rfl⟩ := Term.integer?_eq_some_iff.mp h
  rw [termValue, val.of_decimal hm]

theorem termValue_ofInt (n : Int) : termValue val (Term.ofInt n) = n := by
  have hdigits : val.of (Term.ofInt n).operand = n.natAbs :=
    val.of_decimal (Text.decimal?_repr n.natAbs)
  rw [termValue, hdigits, Term.ofInt_signed]

/-! ## The steps keep the value -/

theorem value_cancel (sum : Sum) (t : Term) :
    value val (cancel sum t) = value val sum + termValue val t := by
  rw [cancel]
  split
  · rename_i hmem
    rw [value_perm (List.perm_cons_erase hmem), value_cons, termValue_opposite]
    omega
  · rw [value_append, value_cons, value_nil, Int.add_zero]

theorem value_foldl_cancel (sum kept : Sum) :
    value val (sum.foldl cancel kept) = value val kept + value val sum := by
  induction sum generalizing kept with
  | nil => simp
  | cons t sum ih =>
    rw [List.foldl_cons, ih, value_cancel, value_cons]
    omega

/-- The integers of a sum and its other terms make up its value. -/
theorem value_filter_add_sum (sum : Sum) :
    value val (sum.filter (·.integer?.isNone)) + (sum.filterMap Term.integer?).sum =
      value val sum := by
  induction sum with
  | nil => rfl
  | cons t sum ih =>
    cases hinteger : t.integer? with
    | none =>
      rw [List.filter_cons_of_pos (by simp [hinteger]), List.filterMap_cons_none hinteger,
        value_cons, value_cons]
      omega
    | some n =>
      rw [List.filter_cons_of_neg (by simp [hinteger]), List.filterMap_cons_some hinteger,
        value_cons, List.sum_cons, termValue_of_integer? hinteger]
      omega

theorem value_collect (htotal : total? sum = some total) :
    value val (collect sum total) = value val sum := by
  obtain ⟨hsum, -⟩ := total?_eq_some htotal
  rw [← value_filter_add_sum sum, ← hsum, collect, value_append]
  split
  · rename_i hzero
    rw [value_nil, hzero]
  · rw [value_cons, value_nil, termValue_ofInt, Int.add_zero]

theorem value_simplify? (h : simplify? sum = some simple) : value val simple = value val sum := by
  obtain ⟨total, htotal, hperm⟩ := perm_of_simplify? h
  rw [value_perm hperm, value_collect htotal, value_foldl_cancel, value_nil, Int.zero_add]

/-! ## Texts and terms -/

/-- What a text denotes is the value of the terms that are read from it. -/
theorem Denotes.eq_value (h : Denotes val s v) : v = value val (parseFrom false [] s) := by
  have hterm (sign : Bool) {a : List Char} (ha : IsOperand a) :
      parseFrom sign [] a = [⟨sign, a⟩] := by
    rw [parseFrom_of_no_sign ha.isSign_eq, List.nil_append, termOf_of_isOperand ha]
  have hfirst {c : Char} (hc : isSign c = true) {a : List Char} (ha : IsOperand a) :
      parseFrom false [] (c :: a) = [⟨c == '-', a⟩] := by
    have hsplit : parseFrom false [] ([] ++ c :: a) = parseFrom false [] [] ++
        parseFrom (c == '-') [] a :=
      parseFrom_append_sign hc a
    rwa [hterm _ ha] at hsplit
  induction h with
  | operand ha => simp [hterm false ha, termValue]
  | positive ha => simp [hfirst (c := '+') rfl ha, termValue]
  | negative ha => simp [hfirst (c := '-') rfl ha, termValue]
  | plus _ ha ih =>
    rw [parseFrom_append_sign rfl, value_append, ← ih, hterm _ ha]
    simp [termValue]
  | minus _ ha ih =>
    rw [parseFrom_append_sign rfl, value_append, ← ih, hterm _ ha]
    simp [termValue, Int.sub_eq_add_neg]

theorem DenotesPart.eq_value {text : Option String} (h : DenotesPart val text v) :
    v = value val (termsOf text) := by
  cases text with
  | none => exact h
  | some text => exact Denotes.eq_value h

/-- Terms written behind a text add their values. -/
theorem Denotes.append_renderNext (hsum : ∀ t ∈ sum, IsOperand t.operand) (h : Denotes val s v) :
    Denotes val (s ++ sum.flatMap renderNext) (v + value val sum) := by
  induction sum generalizing s v with
  | nil => simpa using h
  | cons t sum ih =>
    obtain ⟨ht, hsum⟩ := List.forall_mem_cons.mp hsum
    have hnext : Denotes val (s ++ renderNext t) (v + termValue val t) := by
      rw [renderNext, Term.key, termValue]
      cases t.negative with
      | false => exact h.plus ht
      | true => exact h.minus ht
    rw [List.flatMap_cons, value_cons, ← List.append_assoc, ← Int.add_assoc]
    exact ih hsum hnext

theorem denotes_render (hsum : ∀ t ∈ sum, IsOperand t.operand) :
    Denotes val (render sum) (value val sum) := by
  cases sum with
  | nil =>
    have hzero : val.of ['0'] = 0 := val.of_decimal (n := 0) (by decide)
    rw [value_nil, ← hzero]
    exact .operand (isOperand_of_all (List.cons_ne_nil _ _) rfl)
  | cons t sum =>
    obtain ⟨ht, hsum⟩ := List.forall_mem_cons.mp hsum
    rw [render, value_cons]
    refine Denotes.append_renderNext hsum ?_
    rw [termValue, Term.key]
    cases t.negative with
    | false => exact .operand ht
    | true => exact .negative ht

end Sum

open FortranLayout.Sum (Denotes DenotesPart reading)

/-- What a simplified sum denotes is what the texts before denoted, the first two added and the last
one taken away. -/
theorem denotes_simplifySum_iff {val : Valuation} {expr out : String}
    {plus minus : Option String} {v p m : Int}
    (hexpr : Denotes val (reading expr) v) (hplus : DenotesPart val plus p)
    (hminus : DenotesPart val minus m) (h : simplifySum expr plus minus = .ok out) (w : Int) :
    Denotes val (reading out) w ↔ w = v + p - m := by
  obtain ⟨-, simple, hsimple, rfl⟩ := simplifySum_eq_ok_iff.mp h
  have hread := Sum.wellRead_of_simplify? hsimple fun t => Sum.wellRead_of_mem_signedTerms
  have hvalue : Sum.value val simple = v + p - m := by
    rw [Sum.value_simplify? hsimple, Sum.signedTerms, Sum.value_append, Sum.value_append,
      Sum.value_map_opposite, ← hexpr.eq_value, ← hplus.eq_value, ← hminus.eq_value,
      Int.sub_eq_add_neg]
  have hdenotes : Denotes val (reading (String.ofList simple.render)) (v + p - m) := by
    rw [Sum.reading_render hread, ← hvalue]
    exact Sum.denotes_render fun t ht => (hread t ht).toIsOperand
  constructor
  · intro hw
    exact hw.eq_value.trans hdenotes.eq_value.symm
  · rintro rfl
    exact hdenotes

/-- The least 64-bit integer is reached step by step, and one name is left. -/
theorem denotes_simplifySum_iff_extremeSum :
    simplifySum "i - 9223372036854775807" (some "-1 + I") (some "i") = .ok "I-9223372036854775808" ∧
      ∀ w, Denotes (.ofNames 5) (reading "I-9223372036854775808") w ↔
        w = (5 - 9223372036854775807) + (-1 + 5) - 5 := by
  have hterms : Sum.signedTerms "i - 9223372036854775807" (some "-1 + I") (some "i") =
      [⟨false, ['I']⟩, ⟨true, "9223372036854775807".toList⟩, ⟨true, ['1']⟩, ⟨false, ['I']⟩,
        ⟨true, ['I']⟩] := by
    decide +kernel
  have hsimple :
      Sum.simplify? (Sum.signedTerms "i - 9223372036854775807" (some "-1 + I") (some "i")) =
      some [⟨false, ['I']⟩, ⟨true, "9223372036854775808".toList⟩] := by
    rw [hterms]
    refine Sum.simplify?_eq_some_iff.mpr ⟨-9223372036854775808, by decide +kernel, ?_⟩
    exact List.mergeSort_of_pairwise (by decide +kernel)
  have hout : simplifySum "i - 9223372036854775807" (some "-1 + I") (some "i") =
      .ok "I-9223372036854775808" :=
    simplifySum_eq_ok_iff.mpr ⟨by decide, _, hsimple, by decide +kernel⟩
  have hname : Sum.IsOperand ['I'] := Sum.isOperand_of_all (List.cons_ne_nil _ _) rfl
  have hone : Sum.IsOperand ['1'] := Sum.isOperand_of_all (List.cons_ne_nil _ _) rfl
  have hdigits : Sum.IsOperand "9223372036854775807".toList :=
    Sum.isOperand_of_all (by decide) (by decide)
  refine ⟨hout, denotes_simplifySum_iff ?_ ?_ ?_ hout⟩
  · exact Denotes.minus (.operand hname) hdigits
  · exact Denotes.plus (.negative hone) hname
  · exact Denotes.operand hname

end FortranLayout
