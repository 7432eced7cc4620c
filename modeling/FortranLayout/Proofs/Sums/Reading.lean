import FortranLayout.Proofs.Sums.Parentheses
import FortranLayout.Proofs.Text.UpperCase

/-!
# Reading and writing sums

A text is read without its blanks and in upper case, and cut at its signs. Reading gives back the
terms that were written (`parseFrom_render`), and what is written is already without blanks and in
upper case (`reading_render`).

* `signedTerms`: the terms of the three texts of a sum, the last of them with other signs.
* `simplifySum_eq_ok_iff`: when simplifying succeeds, and with which text.
-/

namespace FortranLayout

namespace Sum

variable {negative : Bool} {operand s : List Char} {c : Char} {t : Term}

/-! ## Operands -/

/-- A text as it is read: without blanks and in upper case. -/
def reading (s : String) : List Char := Text.toUpper (s.toList.filter (· != ' '))

/-- What stands between two signs: some characters, none of them a sign. -/
structure IsOperand (a : List Char) : Prop where
  ne_nil : a ≠ []
  isSign_eq : ∀ c ∈ a, isSign c = false

theorem isOperand_of_all (hne : operand ≠ []) (h : operand.all (!isSign ·) = true) :
    IsOperand operand :=
  ⟨hne, fun c hc => by simpa using List.all_eq_true.mp h c hc⟩

theorem termOf_of_isOperand (h : IsOperand operand) :
    termOf negative operand = [⟨negative, operand⟩] := by
  rw [termOf, List.isEmpty_eq_false_iff.mpr h.ne_nil]
  rfl

theorem mem_termOf : t ∈ termOf negative operand ↔ operand ≠ [] ∧ t = ⟨negative, operand⟩ := by
  cases operand <;> simp [termOf]

/-- Behind the last sign there is at most one more term. -/
theorem parseFrom_of_no_sign (hs : ∀ c ∈ s, isSign c = false) :
    parseFrom negative operand s = termOf negative (operand ++ s) := by
  induction s generalizing operand with
  | nil => rw [parseFrom, List.append_nil]
  | cons c s ih =>
    obtain ⟨hc, hs⟩ := List.forall_mem_cons.mp hs
    rw [parseFrom, hc, if_neg Bool.false_ne_true, ih hs, List.append_assoc, List.singleton_append]

/-- A sign ends the terms before it and begins those behind it. -/
theorem parseFrom_append_sign (hc : isSign c = true) (rest : List Char) :
    parseFrom negative operand (s ++ c :: rest) =
      parseFrom negative operand s ++ parseFrom (c == '-') [] rest := by
  induction s generalizing negative operand with
  | nil =>
    rw [List.nil_append, parseFrom.eq_2, if_pos hc]
    rfl
  | cons d s ih =>
    rw [List.cons_append, parseFrom, parseFrom]
    split
    · rw [ih, List.append_assoc]
    · rw [ih]

/-- What is read in an operand stands in the text, and is no sign. -/
theorem mem_of_mem_parseFrom (hoperand : ∀ c ∈ operand, isSign c = false)
    (ht : t ∈ parseFrom negative operand s) :
    IsOperand t.operand ∧ ∀ c ∈ t.operand, c ∈ operand ∨ c ∈ s := by
  induction s generalizing negative operand with
  | nil =>
    obtain ⟨hne, rfl⟩ := mem_termOf.mp ht
    exact ⟨⟨hne, hoperand⟩, fun c hc => .inl hc⟩
  | cons d s ih =>
    rw [parseFrom] at ht
    split at ht
    · rcases List.mem_append.mp ht with ht | ht
      · obtain ⟨hne, rfl⟩ := mem_termOf.mp ht
        exact ⟨⟨hne, hoperand⟩, fun c hc => .inl hc⟩
      · obtain ⟨hisOperand, hmem⟩ := ih (by simp) ht
        refine ⟨hisOperand, fun c hc => .inr (List.mem_cons_of_mem _ ?_)⟩
        exact (hmem c hc).resolve_left List.not_mem_nil
    · rename_i hsign
      rw [Bool.not_eq_true] at hsign
      have hlonger : ∀ c ∈ operand ++ [d], isSign c = false := by
        simpa [or_imp, forall_and, hsign] using hoperand
      obtain ⟨hisOperand, hmem⟩ := ih hlonger ht
      refine ⟨hisOperand, fun c hc => ?_⟩
      rcases hmem c hc with hc | hc
      · rcases List.mem_append.mp hc with hc | hc
        · exact .inl hc
        · exact .inr (List.mem_singleton.mp hc ▸ List.mem_cons_self)
      · exact .inr (List.mem_cons_of_mem _ hc)

/-! ## Writing and reading again -/

/-- A sign and what stands behind it, up to the next sign, are one term. -/
theorem parseFrom_flatMap_renderNext {sum : Sum} (hsum : ∀ t ∈ sum, IsOperand t.operand)
    (hs : ∀ c ∈ s, isSign c = false) :
    parseFrom negative [] (s ++ sum.flatMap renderNext) = termOf negative s ++ sum := by
  induction sum generalizing negative s with
  | nil =>
    rw [List.flatMap_nil, List.append_nil, parseFrom_of_no_sign hs, List.nil_append,
      List.append_nil]
  | cons t sum ih =>
    obtain ⟨ht, hsum⟩ := List.forall_mem_cons.mp hsum
    have hsign : isSign (if t.negative then '-' else '+') = true ∧
        ((if t.negative then '-' else '+' : Char) == '-') = t.negative := by
      cases t.negative <;> exact ⟨rfl, rfl⟩
    have hnext : s ++ (t :: sum).flatMap renderNext =
        s ++ (if t.negative then '-' else '+') :: (t.operand ++ sum.flatMap renderNext) := rfl
    rw [hnext, parseFrom_append_sign hsign.1, hsign.2, ih hsum ht.isSign_eq, termOf_of_isOperand ht,
      parseFrom_of_no_sign hs]
    rfl

/-- A sum that is written is read again. -/
theorem parseFrom_render {sum : Sum} (hne : sum ≠ []) (hsum : ∀ t ∈ sum, IsOperand t.operand) :
    parseFrom false [] (render sum) = sum := by
  cases sum with
  | nil => exact absurd rfl hne
  | cons t sum =>
    obtain ⟨ht, hrest⟩ := List.forall_mem_cons.mp hsum
    rw [render]
    cases hsign : t.negative with
    | false =>
      rw [if_neg Bool.false_ne_true, parseFrom_flatMap_renderNext hrest ht.isSign_eq,
        termOf_of_isOperand ht, ← hsign]
      rfl
    | true =>
      -- a sign at the beginning is read like one in the middle
      have hall : parseFrom false [] ([] ++ (t :: sum).flatMap renderNext) =
          termOf false [] ++ t :: sum :=
        parseFrom_flatMap_renderNext hsum (by simp)
      rw [if_pos rfl]
      exact hall

/-! ## The texts of a sum -/

/-- The terms of a text that may be absent. -/
def termsOf (text : Option String) : Sum := text.elim [] fun s => parseFrom false [] (reading s)

/-- The terms of `expr + plus - minus`. -/
def signedTerms (expr : String) (plus minus : Option String) : Sum :=
  parseFrom false [] (reading expr) ++ termsOf plus ++ (termsOf minus).map Term.opposite

/-! ## Characters that reading leaves alone -/

/-- A character that reading leaves as it is: no blank, and in upper case. -/
def IsRead (c : Char) : Prop := c ≠ ' ' ∧ Text.upperChar c = [c]

theorem isRead_of_lt (hblank : c ≠ ' ') (hc : c.toNat < 'A'.toNat) : IsRead c :=
  ⟨hblank, Text.upperChar_of_lt hc⟩

theorem isRead_of_mem_reading {text : String} (hc : c ∈ reading text) : IsRead c := by
  obtain ⟨d, hd, hcd⟩ := List.mem_flatMap.mp hc
  obtain ⟨hupper, hsame⟩ := Text.upperChar_of_mem hcd
  refine ⟨?_, hupper⟩
  rintro rfl
  rcases hsame with rfl | hle
  · simp at hd
  · exact absurd hle (by decide)

theorem reading_ofList (hs : ∀ c ∈ s, IsRead c) : reading (String.ofList s) = s := by
  have hblanks : s.filter (· != ' ') = s :=
    List.filter_eq_self.mpr fun c hc => bne_iff_ne.mpr (hs c hc).1
  rw [reading, String.toList_ofList, hblanks, Text.toUpper,
    List.flatMap_congr fun c hc => (hs c hc).2, List.flatMap_singleton']

/-- A term as reading yields it. -/
structure WellRead (t : Term) : Prop extends IsOperand t.operand where
  isRead : ∀ c ∈ t.operand, IsRead c

theorem wellRead_of_mem_termsOf {text : Option String} (ht : t ∈ termsOf text) : WellRead t := by
  cases text with
  | none => cases ht
  | some text =>
    obtain ⟨hoperand, hmem⟩ := mem_of_mem_parseFrom (by simp) ht
    refine ⟨hoperand, fun c hc => ?_⟩
    exact isRead_of_mem_reading ((hmem c hc).resolve_left List.not_mem_nil)

theorem wellRead_of_mem_signedTerms {expr : String} {plus minus : Option String}
    (ht : t ∈ signedTerms expr plus minus) : WellRead t := by
  rcases List.mem_append.mp ht with ht | ht
  · rcases List.mem_append.mp ht with ht | ht
    · have hexpr : t ∈ termsOf (some expr) := ht
      exact wellRead_of_mem_termsOf hexpr
    · exact wellRead_of_mem_termsOf ht
  · obtain ⟨u, hu, rfl⟩ := List.mem_map.mp ht
    have hread := wellRead_of_mem_termsOf hu
    exact ⟨hread.toIsOperand, hread.isRead⟩

theorem isRead_of_mem_key (ht : WellRead t) (hc : c ∈ t.key) : IsRead c := by
  rcases List.mem_cons.mp hc with rfl | hc
  · cases t.negative <;> exact isRead_of_lt (by decide) (by decide)
  · exact ht.isRead c hc

/-- A sum whose terms have been read is written the way it is read. -/
theorem reading_render {sum : Sum} (hsum : ∀ t ∈ sum, WellRead t) :
    reading (String.ofList (render sum)) = render sum := by
  refine reading_ofList fun c hc => ?_
  cases sum with
  | nil =>
    rw [List.mem_singleton.mp hc]
    exact isRead_of_lt (by decide) (by decide)
  | cons t sum =>
    obtain ⟨ht, hrest⟩ := List.forall_mem_cons.mp hsum
    rcases List.mem_append.mp hc with hc | hc
    · split at hc
      · exact isRead_of_mem_key ht hc
      · exact ht.isRead c hc
    · obtain ⟨u, hu, hc⟩ := List.mem_flatMap.mp hc
      exact isRead_of_mem_key (hrest u hu) hc

end Sum

theorem simplifySum_eq_ok_iff {expr out : String} {plus minus : Option String} :
    simplifySum expr plus minus = .ok out ↔
      (∀ text ∈ expr :: plus.toList ++ minus.toList, ¬Sum.SignInPair text.toList) ∧
        ∃ simple, Sum.simplify? (Sum.signedTerms expr plus minus) = some simple ∧
          out = String.ofList (Sum.render simple) := by
  rw [simplifySum, Sum.forM_checkParentheses]
  cases hrefused : (expr :: plus.toList ++ minus.toList).find? (Sum.SignInPair ·.toList) with
  | some text =>
    have hpair : Sum.SignInPair text.toList := by simpa using List.find?_some hrefused
    have hmem := List.mem_of_find?_eq_some hrefused
    simp only [bind, Except.bind, reduceCtorEq, false_iff, not_and]
    exact fun hall => absurd hpair (hall text hmem)
  | none =>
    have hall : ∀ text ∈ expr :: plus.toList ++ minus.toList, ¬Sum.SignInPair text.toList := by
      simpa using List.find?_eq_none.mp hrefused
    have hterms : Sum.parse expr.toList ++ (plus.elim [] fun s => Sum.parse s.toList) ++
        (minus.elim [] fun s => Sum.parse s.toList).map Term.opposite =
          Sum.signedTerms expr plus minus := rfl
    rw [and_iff_right hall]
    simp only [bind, Except.bind, hterms]
    cases Sum.simplify? (Sum.signedTerms expr plus minus) with
    | some simple => simp [pure, Except.pure, eq_comm]
    | none => simp [throw, throwThe, MonadExceptOf.throw]

end FortranLayout
