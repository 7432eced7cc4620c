import FortranLayout.Proofs.Sums.Nesting
import Mathlib.Data.Char
import Mathlib.Data.List.Lex

/-!
# The canonical form of a sum

What is left when opposite terms have cancelled depends only on how often each term occurs
(`count_foldl_cancel`), and the order of the result only on its terms (`mergeSort_eq_of_perm`). So
sums of the same terms are simplified to the same text, and a simplified sum to itself
(`simplifySum_canonical`).
-/

namespace FortranLayout

/-! ## The order of terms -/

namespace Term

variable {a b c : Term}

theorem sorted_iff : a.sorted b = true ↔ ¬List.Lex (· < ·) b.key a.key := by
  rw [sorted, Bool.not_eq_true', ← Bool.not_eq_true, List.lex_eq_true_iff_lex]
  simp only [decide_eq_true_eq]

theorem sorted_trans (hab : a.sorted b = true) (hbc : b.sorted c = true) : a.sorted c = true := by
  rw [sorted_iff] at hab hbc ⊢
  intro hca
  rcases IsOrderConnected.conn _ b.key _ hca with hcb | hba
  · exact hbc hcb
  · exact hab hba

theorem sorted_total (a b : Term) : (a.sorted b || b.sorted a) = true := by
  rw [Bool.or_eq_true, sorted_iff, sorted_iff, ← not_and_or]
  rintro ⟨hba, hab⟩
  exact asymm_of (List.Lex (· < ·)) hba hab

theorem key_injective (h : a.key = b.key) : a = b := by
  obtain ⟨sign, operand⟩ := a
  obtain ⟨sign', operand'⟩ := b
  obtain ⟨hsign, hoperand⟩ := List.cons.inj h
  cases sign <;> cases sign' <;> simp_all

theorem sorted_antisymm (hab : a.sorted b = true) (hba : b.sorted a = true) : a = b := by
  rw [sorted_iff] at hab hba
  rcases trichotomous_of (List.Lex (· < ·)) a.key b.key with h | h | h
  · exact absurd h hba
  · exact key_injective h
  · exact absurd h hab

@[simp] theorem opposite_opposite (t : Term) : t.opposite.opposite = t := by
  simp [opposite]

theorem opposite_ne (t : Term) : t.opposite ≠ t := by
  intro h
  have hsign := congrArg Term.negative h
  simp [opposite] at hsign

end Term

namespace Sum

variable {sum sum' simple : Sum} {t : Term} {total : Int}

theorem pairwise_mergeSort (sum : Sum) :
    (sum.mergeSort Term.sorted).Pairwise fun a b => a.sorted b = true := by
  have htrans : ∀ a b c : Term, a.sorted b = true → b.sorted c = true → a.sorted c = true :=
    fun _ _ _ => Term.sorted_trans
  exact List.pairwise_mergeSort htrans Term.sorted_total sum

/-- There is one way to put terms in order. -/
theorem mergeSort_eq_of_perm (hsorted : simple.Pairwise fun a b => a.sorted b = true)
    (h : sum.Perm simple) :
    sum.mergeSort Term.sorted = simple := by
  refine List.Perm.eq_of_pairwise ?_ (pairwise_mergeSort sum) hsorted
    ((List.mergeSort_perm _ _).trans h)
  intro a b _ _ hab hba
  exact Term.sorted_antisymm hab hba

/-! ## What is left of opposite terms -/

theorem count_cancel (sum : Sum) (t u : Term) :
    (cancel sum u).count t =
      if u.opposite ∈ sum then sum.count t - [u.opposite].count t
        else sum.count t + [u].count t := by
  rw [cancel]
  split
  · rw [List.count_erase, List.count_singleton]
  · rw [List.count_append]

/-- Each term is left as often as it occurs more often than its opposite. -/
theorem count_foldl_cancel (sum : Sum) (t : Term) :
    (sum.foldl cancel []).count t = sum.count t - sum.count t.opposite := by
  -- the last term either takes its opposite away or is entered
  induction sum using List.reverseRecOn generalizing t with
  | nil => rfl
  | append_singleton sum u ih =>
    have hmem : u.opposite ∈ sum.foldl cancel [] ↔ sum.count u < sum.count u.opposite := by
      rw [← List.count_pos_iff, ih, Term.opposite_opposite]
      omega
    rw [List.foldl_append, List.foldl_cons, List.foldl_nil, count_cancel, ih, List.count_append,
      List.count_append]
    simp only [hmem]
    have hone (x : Term) : [x].count x = 1 := List.count_singleton_self
    have hzero {x y : Term} (h : x ≠ y) : [y].count x = 0 :=
      List.count_eq_zero_of_not_mem (by simpa using h)
    by_cases htu : t = u
    · subst htu
      rw [hone, hzero t.opposite_ne.symm, hzero t.opposite_ne]
      split <;> omega
    · by_cases hto : t = u.opposite
      · subst hto
        rw [Term.opposite_opposite, hone, hone, hzero htu]
        split <;> omega
      · have hot : t.opposite ≠ u := fun h => hto (by rw [← h, Term.opposite_opposite])
        rw [hzero htu, hzero hto, hzero hot]
        split <;> omega

theorem foldl_cancel_perm (h : sum.Perm sum') :
    (sum.foldl cancel []).Perm (sum'.foldl cancel []) := by
  rw [List.perm_iff_count]
  intro t
  rw [count_foldl_cancel, count_foldl_cancel, h.count_eq, h.count_eq]

/-- Of two opposite terms, one is left at most. -/
theorem opposite_not_mem_foldl_cancel (ht : t ∈ sum.foldl cancel []) :
    t.opposite ∉ sum.foldl cancel [] := by
  rw [← List.count_pos_iff, count_foldl_cancel] at ht ⊢
  rw [Term.opposite_opposite]
  omega

/-- Without opposite terms everything is left. -/
theorem foldl_cancel_perm_self (h : ∀ t ∈ sum, t.opposite ∉ sum) :
    (sum.foldl cancel []).Perm sum := by
  rw [List.perm_iff_count]
  intro t
  rw [count_foldl_cancel]
  by_cases ht : t ∈ sum
  · rw [List.count_eq_zero_of_not_mem (h t ht), Nat.sub_zero]
  · rw [List.count_eq_zero_of_not_mem ht, Nat.zero_sub]

/-! ## Sums of the same terms -/

theorem collect_perm (h : sum.Perm sum') (total : Int) :
    (collect sum total).Perm (collect sum' total) :=
  (h.filter _).append_right _

/-- Sums of the same terms that are both simplified have the same result. -/
theorem simplify?_congr {simple' : Sum} (h : sum.Perm sum') (hsimple : simplify? sum = some simple)
    (hsimple' : simplify? sum' = some simple') : simple = simple' := by
  obtain ⟨total, htotal, rfl⟩ := simplify?_eq_some_iff.mp hsimple
  obtain ⟨total', htotal', rfl⟩ := simplify?_eq_some_iff.mp hsimple'
  have hkept := foldl_cancel_perm h
  have heq : total = total' := by
    rw [(total?_eq_some htotal).1, (total?_eq_some htotal').1]
    exact (hkept.filterMap _).sum_eq
  rw [← heq]
  refine mergeSort_eq_of_perm (pairwise_mergeSort _) ?_
  exact (collect_perm hkept total).trans (List.mergeSort_perm _ _).symm

/-! ## Simplified sums -/

theorem total?_of_filterMap (hfits : Text.fitsSigned total = true)
    (h : (sum.filterMap Term.integer?).Perm (if total = 0 then [] else [total])) :
    total? sum = some total := by
  rw [total?]
  split at h
  · rename_i hzero
    rw [List.perm_nil.mp h, hzero]
    rfl
  · rw [List.perm_singleton.mp h, List.foldlM_cons, addInRange?, Int.zero_add, if_pos hfits]
    rfl

/-- No two terms of a result are opposite, unless digits out of range stand among the terms. -/
theorem opposite_not_mem_collect
    (hdigits : ∀ t ∈ sum, ∀ n, Text.decimal? t.operand = some n → n ≤ 9223372036854775807)
    (ht : t ∈ collect (sum.foldl cancel []) total) :
    t.opposite ∉ collect (sum.foldl cancel []) total := by
  -- a term with the digits of the total would have been added up
  have hapart : ∀ u ∈ sum.foldl cancel [],
      u.integer? = none → u.operand ≠ (Term.ofInt total).operand := by
    intro u hu hnone heq
    have hdecimal : Text.decimal? u.operand = some total.natAbs := by
      rw [heq]
      exact Text.decimal?_repr _
    have hle := hdigits u ((mem_of_mem_foldl_cancel hu).resolve_left List.not_mem_nil) _ hdecimal
    have hfits : Text.fitsSigned total.natAbs = true := Text.fitsSigned_iff.mpr (by omega)
    have hsome := Term.integer?_eq_some_iff.mpr ⟨_, hdecimal, hfits, rfl⟩
    rw [hnone] at hsome
    cases hsome
  intro hopposite
  rcases mem_collect ht with ⟨hkept, hnone⟩ | ⟨-, rfl⟩
  · rcases mem_collect hopposite with ⟨hkept', -⟩ | ⟨-, heq⟩
    · exact opposite_not_mem_foldl_cancel hkept hkept'
    · have hoperand : t.opposite.operand = (Term.ofInt total).operand := congrArg Term.operand heq
      exact hapart t hkept hnone hoperand
  · rcases mem_collect hopposite with ⟨hkept', hnone'⟩ | ⟨-, heq⟩
    · exact hapart _ hkept' hnone' rfl
    · exact Term.opposite_ne _ heq

/-- The only integer of a result is its total, if that is read as an integer again. -/
theorem integers_collect (sum : Sum) (hfits : Text.fitsSigned total = true) :
    ∃ total', Text.fitsSigned total' = true ∧
      (collect sum total).filterMap Term.integer? = (if total' = 0 then [] else [total']) ∧
      collect (collect sum total) total' = collect sum total := by
  set others := sum.filter (·.integer?.isNone) with hdef
  have hnone : ∀ t ∈ others, t.integer? = none := fun t ht =>
    Option.isNone_iff_eq_none.mp (List.mem_filter.mp ht).2
  have hothers : others.filterMap Term.integer? = [] := List.filterMap_eq_nil_iff.mpr hnone
  have hkept : others.filter (·.integer?.isNone) = others := by
    rw [hdef, List.filter_filter]
    simp
  by_cases hzero : total = 0
  · have hcollect : collect sum total = others := by rw [collect, if_pos hzero, List.append_nil]
    refine ⟨0, by decide, ?_, ?_⟩
    · rw [hcollect, hothers, if_pos rfl]
    · rw [hcollect, collect, hkept, if_pos rfl, List.append_nil]
  · have hcollect : collect sum total = others ++ [Term.ofInt total] := by
      rw [collect, if_neg hzero]
    cases hinteger : (Term.ofInt total).integer? with
    | none =>
      -- the least integer: its digits alone are out of range
      refine ⟨0, by decide, ?_, ?_⟩
      · rw [hcollect, List.filterMap_append, hothers, List.filterMap_cons_none hinteger]
        rfl
      · rw [hcollect, collect, List.filter_append, hkept,
          List.filter_cons_of_pos (by simp [hinteger])]
        simp
    | some n =>
      obtain rfl := Term.eq_of_integer?_ofInt hinteger
      refine ⟨n, hfits, ?_, ?_⟩
      · rw [hcollect, List.filterMap_append, hothers, List.filterMap_cons_some hinteger,
          if_neg hzero]
        rfl
      · rw [hcollect, collect, List.filter_append, hkept,
          List.filter_cons_of_neg (by simp [hinteger]),
          if_neg hzero]
        simp

/-- Simplifying again leaves a result as it is, unless digits out of range stand among the terms. -/
theorem simplify?_simplify?
    (hdigits : ∀ t ∈ sum, ∀ n, Text.decimal? t.operand = some n → n ≤ 9223372036854775807)
    (h : simplify? sum = some simple) : simplify? simple = some simple := by
  obtain ⟨total, htotal, rfl⟩ := simplify?_eq_some_iff.mp h
  have hcollected := integers_collect (sum.foldl cancel []) (total?_eq_some htotal).2
  set result := collect (sum.foldl cancel []) total with hresult
  obtain ⟨total', hfits, hintegers, hcollect⟩ := hcollected
  have hperm : (result.mergeSort Term.sorted).Perm result := List.mergeSort_perm _ _
  have hopposite : ∀ t ∈ result.mergeSort Term.sorted,
      t.opposite ∉ result.mergeSort Term.sorted := by
    intro t ht hmem
    exact opposite_not_mem_collect hdigits (hperm.subset ht) (hperm.subset hmem)
  have hkept := (foldl_cancel_perm_self hopposite).trans hperm
  refine simplify?_eq_some_iff.mpr ⟨total', total?_of_filterMap hfits ?_, ?_⟩
  · rw [← hintegers]
    exact hkept.filterMap _
  · refine mergeSort_eq_of_perm (pairwise_mergeSort result) ?_
    have hagain := collect_perm hkept total'
    rw [hcollect] at hagain
    exact hagain.trans hperm.symm

/-! ## Reading a result -/

theorem depth?_ofInt (n : Int) : depth? 0 (Term.ofInt n).operand = some 0 := by
  have hmarks : (Term.ofInt n).operand.filter isMark = [] := by
    refine List.filter_eq_nil_iff.mpr fun c hc hmark => ?_
    have hdigit := Text.isDigit_of_mem_repr hc
    simp only [isMark, isSign, Bool.or_eq_true, beq_iff_eq] at hmark
    rcases hmark with (rfl | rfl) | rfl | rfl <;> exact absurd hdigit (by decide)
  rw [← depth?_filter_isMark, hmarks]
  rfl

theorem depth?_of_mem_termsOf {text : Option String}
    (h : ∀ s ∈ text.toList, Balanced s.toList ∧ ¬SignInside s.toList) (ht : t ∈ termsOf text) :
    depth? 0 t.operand = some 0 := by
  cases text with
  | none => cases ht
  | some s =>
    have hs := depth?_eq_some_zero_iff.mpr (h s (by simp))
    have hscan : depth? 0 ([] ++ reading s) = some 0 := by rwa [List.nil_append, depth?_reading]
    exact depth?_of_mem_parseFrom hscan ht

theorem depth?_of_mem_signedTerms {expr : String} {plus minus : Option String}
    (h : ∀ s ∈ expr :: plus.toList ++ minus.toList, Balanced s.toList ∧ ¬SignInside s.toList)
    (ht : t ∈ signedTerms expr plus minus) : depth? 0 t.operand = some 0 := by
  rcases List.mem_append.mp ht with ht | ht
  · rcases List.mem_append.mp ht with ht | ht
    · have hexpr : t ∈ termsOf (some expr) := ht
      exact depth?_of_mem_termsOf (fun s hs => h s (by simp_all)) hexpr
    · exact depth?_of_mem_termsOf (fun s hs => h s (by simp_all)) ht
  · obtain ⟨u, hu, rfl⟩ := List.mem_map.mp ht
    have hoperand : depth? 0 u.operand = some 0 :=
      depth?_of_mem_termsOf (fun s hs => h s (by simp_all)) hu
    exact hoperand

theorem depth?_of_simplify? (h : simplify? sum = some simple)
    (hsum : ∀ u ∈ sum, depth? 0 u.operand = some 0) :
    ∀ u ∈ simple, depth? 0 u.operand = some 0 := by
  intro u hu
  rcases mem_of_mem_simplify? h hu with hu | ⟨total, rfl⟩
  · exact hsum u hu
  · exact depth?_ofInt total

/-- The text of a result is read as that result, or as a zero that it leaves out. -/
theorem simplify?_signedTerms_render (hread : ∀ t ∈ simple, WellRead t)
    (h : simplify? simple = some simple) :
    simplify? (signedTerms (String.ofList (render simple)) none none) = some simple := by
  have hterms : signedTerms (String.ofList (render simple)) none none =
      parseFrom false [] (render simple) := by
    rw [signedTerms, reading_render hread]
    simp [termsOf]
  rw [hterms]
  cases simple with
  | nil =>
    refine simplify?_eq_some_iff.mpr ⟨0, by decide +kernel, ?_⟩
    exact List.mergeSort_of_pairwise (by decide +kernel)
  | cons t rest =>
    rwa [parseFrom_render (List.cons_ne_nil _ _) fun t ht => (hread t ht).toIsOperand]

end Sum

open FortranLayout.Sum (Balanced SignInside signedTerms)

/-- Sums of the same terms are simplified to the same text; and simplifying again leaves the text as
it is, if no sign stood inside parentheses and no digits were out of range. -/
theorem simplifySum_canonical {expr out : String} {plus minus : Option String}
    (h : simplifySum expr plus minus = .ok out) :
    (∀ expr' plus' minus' out',
      (signedTerms expr' plus' minus').Perm (signedTerms expr plus minus) →
      simplifySum expr' plus' minus' = .ok out' → out' = out) ∧
    ((∀ text ∈ expr :: plus.toList ++ minus.toList,
      Balanced text.toList ∧ ¬SignInside text.toList) →
      (∀ t ∈ signedTerms expr plus minus, ∀ n, Text.decimal? t.operand = some n →
        n ≤ 9223372036854775807) →
      simplifySum out none none = .ok out) := by
  obtain ⟨-, simple, hsimple, rfl⟩ := simplifySum_eq_ok_iff.mp h
  refine ⟨fun expr' plus' minus' out' hperm h' => ?_, fun hnested hdigits => ?_⟩
  · obtain ⟨-, simple', hsimple', rfl⟩ := simplifySum_eq_ok_iff.mp h'
    rw [Sum.simplify?_congr hperm hsimple' hsimple]
  · have hread := Sum.wellRead_of_simplify? hsimple fun t => Sum.wellRead_of_mem_signedTerms
    have hdepth := Sum.depth?_of_simplify? hsimple fun t => Sum.depth?_of_mem_signedTerms hnested
    have hagain := Sum.simplify?_simplify? hdigits hsimple
    refine simplifySum_eq_ok_iff.mpr
      ⟨?_, simple, Sum.simplify?_signedTerms_render hread hagain, rfl⟩
    -- a sum of operands without signs inside parentheses is not refused
    obtain ⟨hbalanced, houtside⟩ := Sum.depth?_eq_some_zero_iff.mp (Sum.depth?_render hdepth)
    intro text htext hpair
    obtain rfl : text = String.ofList simple.render := by simpa using htext
    rw [String.toList_ofList] at hpair
    exact houtside (hpair.signInside hbalanced)

/-- The least 64-bit integer and a name with parentheses, written in two ways. -/
theorem simplifySum_canonical_extremeSum :
    (∀ out, simplifySum "a( i )" (some "-9223372036854775807 - 1") none = .ok out →
      out = "A(I)-9223372036854775808") ∧
    simplifySum "A(I)-9223372036854775808" none none = .ok "A(I)-9223372036854775808" := by
  have hterms : signedTerms "-1" (some "a(I)") (some "9223372036854775807") =
      [⟨true, ['1']⟩, ⟨false, "A(I)".toList⟩, ⟨true, "9223372036854775807".toList⟩] := by
    decide +kernel
  have hsimple : Sum.simplify? (signedTerms "-1" (some "a(I)") (some "9223372036854775807")) =
      some [⟨false, "A(I)".toList⟩, ⟨true, "9223372036854775808".toList⟩] := by
    rw [hterms]
    refine Sum.simplify?_eq_some_iff.mpr ⟨-9223372036854775808, by decide +kernel, ?_⟩
    exact List.mergeSort_of_pairwise (by decide +kernel)
  have hout : simplifySum "-1" (some "a(I)") (some "9223372036854775807") =
      .ok "A(I)-9223372036854775808" := by
    refine simplifySum_eq_ok_iff.mpr ⟨?_, _, hsimple, by decide +kernel⟩
    simp only [← Sum.hasInnerSign_iff]
    decide
  obtain ⟨hsame, hagain⟩ := simplifySum_canonical hout
  refine ⟨fun out => hsame _ _ _ out (by decide +kernel), hagain ?_ ?_⟩
  · intro text htext
    have hdepth : ∀ text ∈ ["-1", "a(I)", "9223372036854775807"],
      Sum.depth? 0 text.toList = some 0 := by decide
    exact Sum.depth?_eq_some_zero_iff.mp (hdepth text htext)
  · rw [hterms]
    have hdigits :
        ∀ t ∈ ([⟨true, ['1']⟩, ⟨false, "A(I)".toList⟩, ⟨true, "9223372036854775807".toList⟩] : Sum),
        (Text.decimal? t.operand).all (· ≤ 9223372036854775807) = true := by
      decide +kernel
    intro t ht n hn
    have hle := hdigits t ht
    rw [hn] at hle
    exact of_decide_eq_true hle

end FortranLayout
