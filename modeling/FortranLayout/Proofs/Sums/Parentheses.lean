import FortranLayout.Sum
import Mathlib.Data.List.Infix

/-!
# Signs inside parentheses

A sum is refused when one of its texts has a pair of parentheses that holds a sign and no other
parentheses. In a text whose pairs do not stand inside one another these are all pairs that hold a
sign. A sign in an outer pair, beside an inner one, is not seen: the sum is then taken apart at that
sign (`simplifySum_nestedSum`).

* `hasInnerSign_iff`: the scan over the characters finds a pair with a sign in it.
* `signInPair_iff_signInside`: pairs that do not stand inside one another.
* `simplifySum_refused_iff`: exactly which sums are refused, and the text that is named.
-/

namespace FortranLayout

namespace Sum

/-! ## Pairs of parentheses -/

/-- A text without parentheses. -/
def NoParentheses (s : List Char) : Prop := ∀ c ∈ s, c ≠ '(' ∧ c ≠ ')'

/-- Each parenthesis that closes has one before it that opens, and each that opens is closed. -/
def Balanced (s : List Char) : Prop :=
  (∀ p ∈ s.inits, p.count ')' ≤ p.count '(') ∧ s.count ')' = s.count '('

/-- No pair of parentheses stands inside another. -/
def Flat (s : List Char) : Prop := ∀ p ∈ s.inits, p.count '(' ≤ p.count ')' + 1

instance : DecidablePred Balanced := fun s =>
  inferInstanceAs
    (Decidable ((∀ p ∈ s.inits, p.count ')' ≤ p.count '(') ∧ s.count ')' = s.count '('))

instance : DecidablePred Flat := fun s =>
  inferInstanceAs (Decidable (∀ p ∈ s.inits, p.count '(' ≤ p.count ')' + 1))

/-- A sign stands where more parentheses have been opened than closed. -/
def SignInside (s : List Char) : Prop :=
  ∃ p c q, s = p ++ c :: q ∧ isSign c = true ∧ p.count ')' < p.count '('

/-- A pair of parentheses holds a sign and no other parentheses. -/
def SignInPair (s : List Char) : Prop :=
  ∃ p t q, s = p ++ '(' :: (t ++ ')' :: q) ∧ NoParentheses t ∧ ∃ c ∈ t, isSign c = true

/-! ## The scan -/

/-- The pair that is open, in which a sign has been met or not, is closed before another one is
opened, and has a sign in it. -/
def ClosesSign (inside : Option Bool) (s : List Char) : Prop :=
  ∃ seen t q, inside = some seen ∧ s = t ++ ')' :: q ∧ NoParentheses t ∧
    (seen = true ∨ ∃ c ∈ t, isSign c = true)

theorem noParentheses_cons {c : Char} {s : List Char} :
    NoParentheses (c :: s) ↔ (c ≠ '(' ∧ c ≠ ')') ∧ NoParentheses s := by
  simp [NoParentheses]

theorem signInPair_cons {c : Char} {s : List Char} :
    SignInPair (c :: s) ↔ (c = '(' ∧ ClosesSign (some false) s) ∨ SignInPair s := by
  constructor
  · rintro ⟨p, t, q, hs, ht, hsign⟩
    cases p with
    | nil =>
      obtain ⟨rfl, rfl⟩ := List.cons.inj hs
      exact .inl ⟨rfl, false, t, q, rfl, rfl, ht, .inr hsign⟩
    | cons d p =>
      obtain ⟨-, rfl⟩ := List.cons.inj hs
      exact .inr ⟨p, t, q, rfl, ht, hsign⟩
  · rintro (⟨rfl, seen, t, q, hseen, rfl, ht, hsign⟩ | ⟨p, t, q, rfl, ht, hsign⟩)
    · obtain rfl := Option.some.inj hseen
      exact ⟨[], t, q, rfl, ht, hsign.resolve_left (by simp)⟩
    · exact ⟨c :: p, t, q, rfl, ht, hsign⟩

theorem not_closesSign_open (inside : Option Bool) (s : List Char) :
    ¬ClosesSign inside ('(' :: s) := by
  rintro ⟨seen, t, q, -, hs, ht, -⟩
  cases t with
  | nil => simp at hs
  | cons d t =>
    obtain ⟨rfl, -⟩ := List.cons.inj hs
    exact (noParentheses_cons.mp ht).1.1 rfl

theorem closesSign_close {inside : Option Bool} {s : List Char} :
    ClosesSign inside (')' :: s) ↔ inside = some true := by
  constructor
  · rintro ⟨seen, t, q, rfl, hs, ht, hsign⟩
    cases t with
    | nil => simpa using hsign
    | cons d t =>
      obtain ⟨rfl, -⟩ := List.cons.inj hs
      exact absurd rfl (noParentheses_cons.mp ht).1.2
  · rintro rfl
    exact ⟨true, [], s, rfl, rfl, by simp [NoParentheses], .inl rfl⟩

theorem closesSign_cons {inside : Option Bool} {c : Char} {s : List Char} (hopen : c ≠ '(')
    (hclose : c ≠ ')') :
    ClosesSign inside (c :: s) ↔ ClosesSign (inside.map (· || isSign c)) s := by
  constructor
  · rintro ⟨seen, t, q, rfl, hs, ht, hsign⟩
    cases t with
    | nil => exact absurd (List.cons.inj hs).1 hclose
    | cons d t =>
      obtain ⟨rfl, rfl⟩ := List.cons.inj hs
      refine ⟨seen || isSign c, t, q, rfl, rfl, (noParentheses_cons.mp ht).2, ?_⟩
      rw [Bool.or_eq_true]
      simp only [List.mem_cons, exists_eq_or_imp] at hsign
      tauto
  · rintro ⟨seen, t, q, hseen, rfl, ht, hsign⟩
    obtain ⟨before, rfl, rfl⟩ := Option.map_eq_some_iff.mp hseen
    refine ⟨before, c :: t, q, rfl, rfl, noParentheses_cons.mpr ⟨⟨hopen, hclose⟩, ht⟩, ?_⟩
    rw [Bool.or_eq_true] at hsign
    simp only [List.mem_cons, exists_eq_or_imp]
    tauto

theorem hasInnerSignFrom_iff (inside : Option Bool) (s : List Char) :
    hasInnerSignFrom inside s = true ↔ ClosesSign inside s ∨ SignInPair s := by
  induction s generalizing inside with
  | nil => simp [hasInnerSignFrom, ClosesSign, SignInPair]
  | cons c s ih =>
    rw [hasInnerSignFrom, signInPair_cons]
    split
    · rename_i hopen
      subst hopen
      simp [ih, not_closesSign_open]
    · rename_i hopen
      split
      · rename_i hclose
        subst hclose
        have hnone : ¬ClosesSign none s := fun ⟨_, _, _, h, _⟩ => by cases h
        simp [ih, closesSign_close, hnone]
      · rename_i hclose
        simp [ih, closesSign_cons hopen hclose, hopen]

theorem hasInnerSign_iff (s : List Char) : hasInnerSign s = true ↔ SignInPair s := by
  have hnone : ¬ClosesSign none s := fun ⟨_, _, _, h, _⟩ => by cases h
  rw [hasInnerSign, hasInnerSignFrom_iff, or_iff_right hnone]

instance : DecidablePred SignInPair := fun s => decidable_of_iff _ (hasInnerSign_iff s)

/-! ## Pairs that do not stand inside one another -/

theorem not_parenthesis_of_isSign {c : Char} (hc : isSign c = true) : c ≠ '(' ∧ c ≠ ')' := by
  constructor
  · rintro rfl
    exact absurd hc (by decide)
  · rintro rfl
    exact absurd hc (by decide)

theorem NoParentheses.count_eq_zero {t : List Char} (ht : NoParentheses t) :
    t.count '(' = 0 ∧ t.count ')' = 0 := by
  simp only [List.count_eq_zero]
  exact ⟨fun h => (ht _ h).1 rfl, fun h => (ht _ h).2 rfl⟩

/-- A pair with a sign in it has the sign inside. -/
theorem SignInPair.signInside {s : List Char} (hs : Balanced s) (h : SignInPair s) :
    SignInside s := by
  obtain ⟨p, t, q, rfl, ht, c, hc, hsign⟩ := h
  obtain ⟨before, after, rfl⟩ := List.append_of_mem hc
  have hbefore : NoParentheses before := fun d hd => ht d (List.mem_append_left _ hd)
  have hle : p.count ')' ≤ p.count '(' := hs.1 p (by simp)
  refine ⟨p ++ '(' :: before, c, after ++ ')' :: q, by simp, hsign, ?_⟩
  have hopens : (p ++ '(' :: before).count '(' = p.count '(' + 1 := by
    simp [hbefore.count_eq_zero]
  have hcloses : (p ++ '(' :: before).count ')' = p.count ')' := by simp [hbefore.count_eq_zero]
  omega

/-- The last of the opening parentheses of a text. -/
theorem exists_last_open {p : List Char} (h : '(' ∈ p) : ∃ a t, p = a ++ '(' :: t ∧ '(' ∉ t := by
  obtain ⟨t, a, hp, ht⟩ := List.eq_append_cons_of_mem (List.mem_reverse.mpr h)
  refine ⟨a.reverse, t.reverse, ?_, by simpa using ht⟩
  rw [← List.reverse_reverse p, hp]
  simp

/-- Where no pair stands inside another, a sign that is inside parentheses is in a pair without
other parentheses. -/
theorem SignInside.signInPair {s : List Char} (hs : Balanced s) (hflat : Flat s)
    (h : SignInside s) :
    SignInPair s := by
  obtain ⟨p, c, q, rfl, hsign, hlt⟩ := h
  obtain ⟨hopen, hclose⟩ := not_parenthesis_of_isSign hsign
  have hcount {d : Char} (hd : c ≠ d) (r : List Char) :
      (p ++ c :: r).count d = p.count d + r.count d := by
    rw [List.count_append, List.count_cons_of_ne hd]
  -- behind the last parenthesis that opens before the sign, none closes
  obtain ⟨a, t, hp, ht⟩ := exists_last_open (List.count_pos_iff.mp (by omega : 0 < p.count '('))
  have htclose : ')' ∉ t := by
    have hflata : (a ++ ['(']).count '(' ≤ (a ++ ['(']).count ')' + 1 := hflat _ (by simp [hp])
    have hopens : p.count '(' = (a ++ ['(']).count '(' := by
      simp [hp, List.count_eq_zero_of_not_mem ht]
    have hcloses : p.count ')' = (a ++ ['(']).count ')' + t.count ')' := by simp [hp]
    exact List.count_eq_zero.mp (by omega)
  -- the first parenthesis behind the sign closes
  have hq : 0 < q.count ')' := by
    have htotal := hs.2
    rw [hcount hclose, hcount hopen] at htotal
    omega
  obtain ⟨u, d, rfl, hu⟩ := List.eq_append_cons_of_mem (List.count_pos_iff.mp hq)
  have huopen : '(' ∉ u := by
    intro hmem
    obtain ⟨v, w, rfl, -⟩ := List.eq_append_cons_of_mem hmem
    have hflatv := hflat (p ++ c :: (v ++ ['('])) (by simp)
    have hopens : (v ++ ['(']).count '(' = v.count '(' + 1 := by simp
    have hcloses : (v ++ ['(']).count ')' = 0 :=
      List.count_eq_zero_of_not_mem fun h => hu (by simpa using Or.inl h)
    rw [hcount hopen, hcount hclose] at hflatv
    omega
  refine ⟨a, t ++ c :: u, d, by simp [hp], fun e he => ?_, c, by simp, hsign⟩
  rcases List.mem_append.mp he with he | he
  · exact ⟨fun h => ht (h ▸ he), fun h => htclose (h ▸ he)⟩
  · rcases List.mem_cons.mp he with rfl | he
    · exact ⟨hopen, hclose⟩
    · exact ⟨fun h => huopen (h ▸ he), fun h => hu (h ▸ he)⟩

theorem signInPair_iff_signInside {s : List Char} (hs : Balanced s) (hflat : Flat s) :
    SignInPair s ↔ SignInside s :=
  ⟨fun h => h.signInside hs, fun h => h.signInPair hs hflat⟩

/-! ## Refused sums -/

/-- The texts are checked in order, and the first one that is refused is named. -/
theorem forM_checkParentheses (texts : List String) :
    texts.forM checkParentheses =
      match texts.find? (SignInPair ·.toList) with
      | some text => .error (.unsupported .signInParentheses text)
      | none => .ok () := by
  induction texts with
  | nil => rfl
  | cons text texts ih =>
    rw [List.forM, checkParentheses, List.find?_cons]
    cases hsign : hasInnerSign text.toList with
    | true =>
      have hpair : SignInPair text.toList := (hasInnerSign_iff _).mp hsign
      simp only [hpair, decide_true, if_true]
      rfl
    | false =>
      have hpair : ¬SignInPair text.toList := fun h => by simp [(hasInnerSign_iff _).mpr h] at hsign
      simp only [hpair, decide_false, Bool.false_eq_true, if_false]
      exact ih

end Sum

/-- A sum is refused for a sign inside parentheses exactly when one of its texts has a pair of
parentheses that holds a sign and no other parentheses; the first such text is named. In balanced
texts without pairs inside one another every sign inside parentheses is such a sign. -/
theorem simplifySum_refused_iff (expr : String) (plus minus : Option String) :
    (∀ text, simplifySum expr plus minus = .error (.unsupported .signInParentheses text) ↔
        (expr :: plus.toList ++ minus.toList).find? (Sum.SignInPair ·.toList) = some text) ∧
      ((∀ text ∈ expr :: plus.toList ++ minus.toList,
        Sum.Balanced text.toList ∧ Sum.Flat text.toList) →
        ((∃ text, simplifySum expr plus minus = .error (.unsupported .signInParentheses text)) ↔
          ∃ text ∈ expr :: plus.toList ++ minus.toList, Sum.SignInside text.toList)) := by
  have hrefused : ∀ text,
      simplifySum expr plus minus = .error (.unsupported .signInParentheses text) ↔
      (expr :: plus.toList ++ minus.toList).find? (Sum.SignInPair ·.toList) = some text := by
    intro text
    rw [simplifySum, Sum.forM_checkParentheses]
    cases (expr :: plus.toList ++ minus.toList).find? (Sum.SignInPair ·.toList) with
    | some first => simp [bind, Except.bind]
    | none =>
      -- what can fail after the check is the addition of the integers
      simp only [bind, Except.bind]
      split
      · simp [pure, Except.pure]
      · simp [throw, throwThe, MonadExceptOf.throw]
  refine ⟨hrefused, fun htexts => ?_⟩
  simp only [hrefused]
  rw [← Option.isSome_iff_exists, List.find?_isSome]
  refine exists_congr fun text => and_congr_right fun htext => ?_
  rw [decide_eq_true_iff]
  exact Sum.signInPair_iff_signInside (htexts text htext).1 (htexts text htext).2

/-- A reference to an array whose index is a sum with another reference in it. -/
def nestedSum : String := "A(B(I)+1)"

/-- The sign in the outer pair of `nestedSum` is not seen, and the sum is taken apart there. -/
theorem simplifySum_nestedSum :
    Sum.Balanced nestedSum.toList ∧ Sum.SignInside nestedSum.toList ∧
      simplifySum nestedSum none none = .ok "1)+A(B(I)" := by
  refine ⟨by decide, ⟨"A(B(I)".toList, '+', "1)".toList, by decide, by decide, by decide⟩, ?_⟩
  have hchecked : [nestedSum].forM Sum.checkParentheses = .ok () := rfl
  have hterms : Sum.parse nestedSum.toList = [⟨false, "A(B(I)".toList⟩, ⟨false, "1)".toList⟩] := by
    decide +kernel
  have hsorted : List.mergeSort [⟨false, "A(B(I)".toList⟩, ⟨false, "1)".toList⟩] Term.sorted =
      [⟨false, "1)".toList⟩, ⟨false, "A(B(I)".toList⟩] := by
    have hlast : Term.sorted ⟨false, "A(B(I)".toList⟩ ⟨false, "1)".toList⟩ = false := by decide
    simp only [List.mergeSort, List.length_cons, List.length_nil, Nat.reduceAdd, Nat.reduceDiv,
      List.MergeSort.Internal.splitInTwo_fst, List.MergeSort.Internal.splitInTwo_snd,
      List.take_succ_cons, List.take_zero, List.drop_succ_cons, List.drop_zero,
      List.mergeSort_singleton, List.merge, hlast, Bool.false_eq_true, if_false]
  have hsimple : Sum.simplify? (Sum.parse nestedSum.toList) =
      some [⟨false, "1)".toList⟩, ⟨false, "A(B(I)".toList⟩] := by
    rw [hterms, ← hsorted]
    rfl
  simp only [simplifySum, Option.toList, List.append_nil, hchecked, Option.elim,
    List.map_nil, hsimple, bind, Except.bind]
  rfl

end FortranLayout
