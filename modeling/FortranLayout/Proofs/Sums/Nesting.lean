import FortranLayout.Proofs.Sums.Simplification

/-!
# Sums with all signs outside parentheses

A scan that counts the open parentheses of a text stops at a parenthesis that closes none and at a
sign inside parentheses. A text through which it gets is balanced and has no sign inside parentheses
(`depth?_eq_some_zero_iff`). Such a text has only such operands (`depth?_of_mem_parseFrom`), and a
sum of such operands is written as such a text (`depth?_render`), so that it is not refused.
-/

namespace FortranLayout

namespace Sum

variable {d k : Nat} {s t : List Char} {c : Char} {sum : Sum}

/-! ## The scan -/

/-- The number of parentheses that are open behind a text, if `d` are open before it. -/
def depth? (d : Nat) : List Char → Option Nat
  | [] => some d
  | c :: s =>
    if c = '(' then depth? (d + 1) s
    else if c = ')' then if d = 0 then none else depth? (d - 1) s
    else if isSign c && d != 0 then none
    else depth? d s

theorem depth?_append (d : Nat) (s t : List Char) :
    depth? d (s ++ t) = (depth? d s).bind (depth? · t) := by
  induction s generalizing d with
  | nil => rfl
  | cons c s ih =>
    rw [List.cons_append, depth?, depth?]
    repeat' split
    all_goals first | rfl | apply ih

/-- A sign is passed only where nothing is open. -/
theorem depth?_sign (hc : isSign c = true) :
    depth? d (c :: s) = if d = 0 then depth? 0 s else none := by
  obtain ⟨hopen, hclose⟩ := not_parenthesis_of_isSign hc
  rw [depth?, if_neg hopen, if_neg hclose, hc, Bool.true_and]
  by_cases hd : d = 0
  · simp [hd]
  · simp [hd]

/-- The characters that the scan looks at. -/
def isMark (c : Char) : Bool := c == '(' || c == ')' || isSign c

theorem depth?_filter_isMark (d : Nat) (s : List Char) :
    depth? d (s.filter isMark) = depth? d s := by
  induction s generalizing d with
  | nil => rfl
  | cons c s ih =>
    cases hmark : isMark c with
    | true =>
      rw [List.filter_cons_of_pos hmark, depth?, depth?]
      simp only [ih]
    | false =>
      rw [List.filter_cons_of_neg (by simp [hmark]), depth?, ih]
      simp only [isMark, Bool.or_eq_false_iff, beq_eq_false_iff_ne] at hmark
      simp [hmark]

theorem depth?_reading (d : Nat) (text : String) :
    depth? d (reading text) = depth? d text.toList := by
  have hmarks : (reading text).filter isMark = text.toList.filter isMark := by
    rw [reading, Text.filter_toUpper, List.filter_filter]
    · refine List.filter_congr fun c _ => ?_
      by_cases hc : c = ' '
      · simp [hc, isMark, isSign]
      · simp [hc]
    · intro c hc
      simp only [isMark, isSign, Bool.or_eq_true, beq_iff_eq] at hc
      rcases hc with (rfl | rfl) | rfl | rfl <;> decide
  rw [← depth?_filter_isMark, hmarks, depth?_filter_isMark]

/-! ## What gets through -/

/-- Behind `d` open parentheses: at no point are more closed than opened, a sign stands only where
as many are closed as opened, and at the end `k` are open. -/
structure Nested (d k : Nat) (s : List Char) : Prop where
  closes_le : ∀ p ∈ s.inits, p.count ')' ≤ d + p.count '('
  sign : ∀ p c q, s = p ++ c :: q → isSign c = true → p.count ')' = d + p.count '('
  closes_eq : k + s.count ')' = d + s.count '('

theorem nested_cons {n : Nat} (hd : n + [c].count ')' = d + [c].count '(') :
    Nested d k (c :: s) ↔ (isSign c = true → d = 0) ∧ Nested n k s := by
  -- what the first character adds to the counts of a beginning
  have hcount (p : List Char) : (c :: p).count ')' = [c].count ')' + p.count ')' ∧
      (c :: p).count '(' = [c].count '(' + p.count '(' := by
    rw [← List.singleton_append, List.count_append, List.count_append]
    exact ⟨rfl, rfl⟩
  constructor
  · rintro ⟨hle, hsign, heq⟩
    refine ⟨fun hc => ?_, fun p hp => ?_, fun p e q hs he => ?_, ?_⟩
    · have := hsign [] c s rfl hc
      simpa using this.symm
    · have := hle (c :: p) (by simpa using hp)
      have := hcount p
      omega
    · have := hsign (c :: p) e q (by rw [hs, List.cons_append]) he
      have := hcount p
      omega
    · have := hcount s
      omega
  · rintro ⟨hc, hle, hsign, heq⟩
    refine ⟨fun p hp => ?_, fun p e q hs he => ?_, ?_⟩
    · rw [List.inits_cons, List.mem_cons, List.mem_map] at hp
      rcases hp with rfl | ⟨p, hp, rfl⟩
      · simp
      · have := hle p hp
        have := hcount p
        omega
    · cases p with
      | nil =>
        obtain ⟨rfl, -⟩ := List.cons.inj hs
        simp [hc he]
      | cons e' p =>
        obtain ⟨rfl, hrest⟩ := List.cons.inj hs
        have := hsign p e q hrest he
        have := hcount p
        omega
    · have := hcount s
      omega

theorem depth?_eq_some_iff : depth? d s = some k ↔ Nested d k s := by
  induction s generalizing d with
  | nil =>
    constructor
    · intro h
      obtain rfl := Option.some.inj h
      exact ⟨by simp, by simp, rfl⟩
    · intro h
      have := h.closes_eq
      exact congrArg some (by simpa using this.symm)
  | cons c s ih =>
    rw [depth?]
    split
    · rename_i hopen
      subst hopen
      rw [ih, nested_cons (n := d + 1) rfl]
      simp [isSign]
    · rename_i hopen
      split
      · rename_i hclose
        subst hclose
        split
        · rename_i hzero
          subst hzero
          refine iff_of_false (by simp) fun h => ?_
          have := h.closes_le [')'] (by simp)
          simp at this
        · rename_i hpos
          rw [ih, nested_cons (n := d - 1) (by simp; omega)]
          simp [isSign]
      · rename_i hclose
        rw [nested_cons (n := d) (by simp [hopen, hclose])]
        split
        · rename_i hsign
          simp only [Bool.and_eq_true, bne_iff_ne] at hsign
          exact iff_of_false (by simp) fun h => hsign.2 (h.1 hsign.1)
        · rename_i hsign
          simp only [Bool.and_eq_true, bne_iff_ne, not_and, not_not] at hsign
          rw [ih, and_iff_right hsign]

/-- The scan gets through exactly the balanced texts without a sign inside parentheses. -/
theorem depth?_eq_some_zero_iff : depth? 0 s = some 0 ↔ Balanced s ∧ ¬SignInside s := by
  rw [depth?_eq_some_iff]
  constructor
  · rintro ⟨hle, hsign, heq⟩
    refine ⟨⟨by simpa using hle, by simpa using heq⟩, ?_⟩
    rintro ⟨p, c, q, hs, hc, hlt⟩
    have := hsign p c q hs hc
    omega
  · rintro ⟨⟨hle, heq⟩, hsign⟩
    refine ⟨by simpa using hle, fun p c q hs hc => ?_, by simpa using heq⟩
    have hp := hle p (by simp [hs])
    have : ¬p.count ')' < p.count '(' := fun hlt => hsign ⟨p, c, q, hs, hc, hlt⟩
    omega

/-! ## Operands -/

/-- The operands of a text that the scan gets through are such texts. -/
theorem depth?_of_mem_parseFrom {negative : Bool} {operand : List Char} {u : Term}
    (h : depth? 0 (operand ++ s) = some 0) (hu : u ∈ parseFrom negative operand s) :
    depth? 0 u.operand = some 0 := by
  induction s generalizing negative operand with
  | nil =>
    obtain ⟨-, rfl⟩ := mem_termOf.mp hu
    rwa [List.append_nil] at h
  | cons c s ih =>
    rw [parseFrom] at hu
    split at hu
    · rename_i hc
      -- nothing is open at a sign: neither in the operand before it nor in the text behind it
      rw [depth?_append, Option.bind_eq_some_iff] at h
      obtain ⟨d, hoperand, hrest⟩ := h
      rw [depth?_sign hc] at hrest
      split at hrest
      · rename_i hd
        rcases List.mem_append.mp hu with hu | hu
        · obtain ⟨-, rfl⟩ := mem_termOf.mp hu
          rw [hoperand, hd]
        · rw [← List.nil_append s] at hrest
          exact ih hrest hu
      · cases hrest
    · exact ih (by rwa [List.append_assoc, List.singleton_append]) hu

theorem depth?_flatMap_renderNext (hsum : ∀ u ∈ sum, depth? 0 u.operand = some 0) :
    depth? 0 (sum.flatMap renderNext) = some 0 := by
  induction sum with
  | nil => rfl
  | cons u sum ih =>
    obtain ⟨hu, hsum⟩ := List.forall_mem_cons.mp hsum
    have hsign : isSign (if u.negative then '-' else '+') = true := by cases u.negative <;> rfl
    rw [List.flatMap_cons, depth?_append, renderNext, Term.key, depth?_sign hsign, if_pos rfl, hu]
    exact ih hsum

theorem depth?_render (hsum : ∀ u ∈ sum, depth? 0 u.operand = some 0) :
    depth? 0 (render sum) = some 0 := by
  cases sum with
  | nil => rfl
  | cons u rest =>
    obtain ⟨hu, hrest⟩ := List.forall_mem_cons.mp hsum
    rw [render]
    split
    · exact depth?_flatMap_renderNext hsum
    · rw [depth?_append, hu]
      exact depth?_flatMap_renderNext hrest

end Sum

end FortranLayout
