import FortranLayout.Proofs.Spacing.Chain
import FortranLayout.Spacing.Gaps
import Mathlib.Data.List.TakeWhile

/-!
# The edits around punctuation are steady

Setting the blanks next to a punctuation character is steady as long as no frozen gap is next to
that character. Two edits look at gaps themselves: the blanks before the word that ends a text after
a closing parenthesis are set only if the word is at the very end (`WordGaps`), and an equals sign
is not one if it belongs to an arrow (`ArrowGaps`).
-/

namespace FortranLayout.Text

variable {F : Nat → Prop} {γ γ₀ : Nat → Nat} {xs : List Char} {c : Char} {n : Nat}

/-- No frozen gap is next to the character `c`. -/
def Spares (F : Nat → Prop) (xs : List Char) (c : Char) : Prop :=
  ∀ k, F k → (∀ x, xs[k]? = some x → foldLetter x ≠ c) ∧
    ∀ j x, k = j + 1 → xs[j]? = some x → foldLetter x ≠ c

theorem Chain.exists_of_mem_seams {a b : Char} {ls : Chain} (h : (a, b) ∈ ls.seams) :
    ∃ l ∈ ls, l.2 = a := by
  induction ls with
  | nil => simp [seams] at h
  | cons l ls ih =>
    cases ls with
    | nil => simp [seams] at h
    | cons l' ls =>
      rw [seams] at h
      split at h
      · obtain ⟨m, hm, hfst⟩ := ih h
        exact ⟨m, List.mem_cons_of_mem _ hm, hfst⟩
      · rcases List.mem_cons.mp h with heq | h
        · exact ⟨l, List.mem_cons_self, (congrArg Prod.fst heq).symm⟩
        · obtain ⟨m, hm, hfst⟩ := ih h
          exact ⟨m, List.mem_cons_of_mem _ hm, hfst⟩

/-- A chain without ties whose characters are spared. -/
theorem Chain.steady_of_spares (n : Nat) (t : Bool) (l : Link × Char) (ls : Chain) (hx : Inked xs)
    (hs : Sound t l ls) (hties : ties (l :: ls) = []) (h : ∀ l' ∈ l :: ls, Spares F xs l'.2) :
    Steady F γ₀ xs (sweep n t (l :: ls)).everywhere := by
  refine steady_everywhere hs hx (fun k hk => ?_) fun k hk ht => ?_
  · obtain ⟨_, _, _, _, _, _, hpair⟩ := hk
    simp [Paired, hties] at hpair
  · rcases ht
      with ⟨_, x, hxk, hfold⟩ | ⟨_, j, x, hkj, hxj, l', hl', hfold⟩ | ⟨j, x, y, hkj, hxj, _, hpair⟩
    · exact (h l List.mem_cons_self k hk).1 x hxk hfold
    · exact (h l' (List.mem_of_getLast? hl') k hk).2 j x hkj hxj hfold
    · obtain ⟨l', hl', hfst⟩ := exists_of_mem_seams hpair
      exact (h l' hl' k hk).2 j x hkj hxj hfst.symm

theorem steady_before (hx : Inked xs) (hc : c ≠ ' ')
    (h : ∀ k, F k → ∀ x, xs[k]? = some x → foldLetter x ≠ c) (n : Nat) :
    Steady F γ₀ xs (Gaps.before c n).everywhere := by
  have hs : Chain.Sound false (.fitted, c) [] := ⟨Or.inr ⟨rfl, rfl⟩, by simpa using hc⟩
  refine Chain.steady_everywhere (n := n) hs hx ?_ fun k hk ht => ?_
  · rintro k ⟨_, _, _, _, _, _, hpair⟩
    simp [Paired, Chain.ties] at hpair
  · rcases ht with ⟨_, x, hxk, hfold⟩ | ⟨hfalse, _⟩ | ⟨_, _, _, _, _, _, hpair⟩
    · exact h k hk x hxk hfold
    · cases hfalse
    · simp [Paired, Chain.seams] at hpair

theorem steady_after (hx : Inked xs) (hc : c ≠ ' ') (h : Spares F xs c) (n : Nat) :
    Steady F γ₀ xs (Gaps.after c n).everywhere :=
  Chain.steady_of_spares n true (.tight, c) [] hx ⟨Or.inl rfl, by simpa using hc⟩ rfl
    (by simpa using h)

theorem steady_after_of_pos (hx : Inked xs) (hc : c ≠ ' ') (hn : 0 < n) (hF : ∀ k, F k → γ₀ k ≠ 0) :
    Steady F γ₀ xs (Gaps.after c n).everywhere := by
  have hs : Chain.Sound true (.tight, c) [] := ⟨Or.inl rfl, by simpa using hc⟩
  exact Chain.steady_everywhere_of_pos hs hx rfl hn hF

theorem steady_joined {a b : Char} (hx : Inked xs) (ha : a ≠ ' ') (hb : b ≠ ' ')
    (hsa : Spares F xs a) (hsb : Spares F xs b) : Steady F γ₀ xs (Gaps.joined a b).everywhere :=
  Chain.steady_of_spares 0 false (.tight, a) [(.fitted, b)] hx ⟨Or.inl rfl, by simp [ha, hb]⟩ rfl
    (by simp [hsa, hsb])

theorem steady_beforeParentheses (hx : Inked xs) (hopen : Spares F xs '(')
    (hclose : Spares F xs ')') (n : Nat) : Steady F γ₀ xs (Gaps.beforeParentheses n) :=
  (steady_before hx (by decide) (fun k hk => (hclose k hk).1) n).comp
    (steady_before hx (by decide) (fun k hk => (hopen k hk).1) n)

theorem steady_afterParentheses (hx : Inked xs) (hopen : Spares F xs '(') (hclose : Spares F xs ')')
    (n : Nat) : Steady F γ₀ xs (Gaps.afterParentheses n) :=
  (steady_after hx (by decide) hclose n).comp (steady_after hx (by decide) hopen n)

theorem steady_beforeDoubleColon (hx : Inked xs) (h : Spares F xs ':') (w : Width) :
    Steady F γ₀ xs fun s => match w with
      | .exactly n => (Gaps.beforeDoubleColon n).everywhere s
      | .keep => s := by
  cases w with
  | keep => exact .id
  | exactly n =>
    exact Chain.steady_of_spares n false (.fitted, ':') [(.loose, ':')] hx
      ⟨Or.inr ⟨rfl, rfl⟩, by decide⟩ rfl (by simp [h])

theorem steady_afterDoubleColon (hx : Inked xs) (h : Spares F xs ':') (w : Width) :
    Steady F γ₀ xs fun s => match w with
      | .exactly n => (Gaps.afterDoubleColon n).everywhere s
      | .keep => s := by
  cases w with
  | keep => exact .id
  | exactly n =>
    exact Chain.steady_of_spares n true (.tight, ':') [(.loose, ':')] hx
      ⟨Or.inl rfl, by decide⟩ rfl (by simp [h])

theorem steady_declDelim (hx : Inked xs) (h : Spares F xs ':') (r : SpacingRules) :
    Steady F γ₀ xs (Gaps.declDelim r) := by
  have hin : Steady F γ₀ xs fun s =>
      if r.inDeclDelim then (Gaps.joined ':' ':').everywhere s else s := by
    cases r.inDeclDelim with
    | false => exact .id
    | true => exact steady_joined hx (by decide) (by decide) h h
  exact (steady_afterDoubleColon hx h r.afterDeclDelim).comp
    ((steady_beforeDoubleColon hx h r.beforeDeclDelim).comp hin)

theorem exists_rules_once_before (hx : Inked xs) (hc : c ≠ ' ') (n : Nat) :
    ∃ σ : Nat → GapRule, (∀ k, σ k ≠ .keep → ∃ x, xs[k]? = some x ∧ foldLetter x = c) ∧
      ∀ γ, (Gaps.before c n).once (spread xs γ) = spread xs (regap σ γ) := by
  have hs : Chain.Sound false (.fitted, c) [] := ⟨Or.inr ⟨rfl, rfl⟩, by simpa using hc⟩
  have hsearch : Pattern.Seeks (Chain.sweep n false [(.fitted, c)]) (Gaps.before c n).once :=
    Pattern.seeks_once _
  induction xs with
  | nil =>
    exact ⟨fun _ => .keep, fun _ hk => absurd rfl hk, fun γ => Chain.search_spread_nil hsearch hs γ⟩
  | cons x xs ih =>
    by_cases hfold : foldLetter x = c
    · refine ⟨onlyAt 0 (.exactly n), fun k hk => ?_, fun γ => ?_⟩
      · cases k with
        | zero => exact ⟨x, rfl, hfold⟩
        | succ k => exact absurd rfl hk
      · have hfits : Chain.Fits [(.fitted, c)] (x :: xs) γ := ⟨nofun, hfold, trivial⟩
        have hread : (Gaps.before c n).read (spread (x :: xs) γ) =
            some (blanks n ++ [x], spread xs fun k => γ (1 + k)) := by
          refine (Chain.read_sweep_of_fits (n := n) (t := false) hx hfits).trans ?_
          simp [strew, regap, Chain.rules, Link.rule, GapRule.fit, Chain.behind, blanks]
        rw [Pattern.once_of_read hread (by simp [spread_cons]), regap_onlyAt,
          GapRule.fit, spread_cons]
        simp [Nat.add_comm]
    · obtain ⟨σ, htouched, hσ⟩ := ih hx.tail
      refine ⟨passing σ, fun k hk => ?_, fun γ => ?_⟩
      · cases k with
        | zero => exact absurd rfl hk
        | succ k => exact htouched k hk
      · rw [Chain.search_of_not_fits hsearch hx hs fun hf => hfold hf.2.1, hσ, spread_passing]

/-- The blanks before the first `c`. -/
theorem steady_once_before (hx : Inked xs) (hc : c ≠ ' ') (h : Spares F xs c) (n : Nat) :
    Steady F γ₀ xs (Gaps.before c n).once := by
  obtain ⟨σ, htouched, hσ⟩ := exists_rules_once_before hx hc n
  refine Steady.of_keep σ (fun k hk => ?_) fun γ _ => hσ γ
  by_contra hne
  obtain ⟨x, hxk, hfold⟩ := htouched k hne
  exact (h k hk).1 x hxk hfold

/-! ## After the closing parenthesis of a header -/

section

variable {q : Pattern} {ok : List Char → Bool}

/-- One step of the search for a closing parenthesis, a gap and a pattern `q` that ends the text. -/
theorem everywhere_closing_cons {x : Char} (hx : Inked (x :: xs))
    (hq : ∀ s, q.read s = if ok s then some (s, []) else none) (γ : Nat → Nat) :
    Pattern.everywhere (.char ')' :: .gap 0 (some n) :: q) (spread (x :: xs) γ) =
      if foldLetter x = ')' ∧ ok (spread xs (Function.update (fun k => γ (k + 1)) 0 0)) then
        spread (x :: xs) (Function.update γ 1 n)
      else blanks (γ 0) ++ x :: Pattern.everywhere (.char ')' :: .gap 0 (some n) :: q)
        (spread xs fun k => γ (k + 1)) := by
  have hmem : .char ')' ∈ .char ')' :: .gap 0 (some n) :: q := List.mem_cons_self
  have hsearch := Pattern.seeks_everywhere hmem
  have hread :
      Pattern.read (.char ')' :: .gap 0 (some n) :: q) (x :: spread xs fun k => γ (k + 1)) =
      if foldLetter x = ')' ∧ ok (spread xs (Function.update (fun k => γ (k + 1)) 0 0)) then
        some (x :: (blanks n ++ spread xs (Function.update (fun k => γ (k + 1)) 0 0)), [])
      else none := by
    rw [Pattern.read_char_cons, Pattern.read_gap_spread hx.tail, hq]
    by_cases hfold : foldLetter x = ')'
    · by_cases hok : ok (spread xs (Function.update (fun k => γ (k + 1)) 0 0)) = true <;>
        simp [hfold, hok]
    · simp [hfold]
  rw [spread_cons, hsearch.blanks_append (by decide)]
  split
  · rename_i h
    have hset : (fun k => Function.update γ 1 n (k + 1)) =
        Function.update (fun k => γ (k + 1)) 0 n := by
      funext k
      cases k <;> rfl
    rw [if_pos h] at hread
    rw [Pattern.everywhere_of_read hmem hread, Pattern.everywhere_nil, List.append_nil, spread_cons,
      hset, Chain.spread_eq_blanks_append xs (Function.update _ 0 n)]
    simp
  · rename_i h
    rw [if_neg h] at hread
    rw [hsearch.pass hread]
    rfl

/-- Behind every closing parenthesis, blanks right after it apart, the test `ok` gives the same with
the gaps `γ` and `γ'`. -/
def SameBehind (ok : List Char → Bool) (xs : List Char) (γ γ' : Nat → Nat) : Prop :=
  ∀ u x v, xs = u ++ x :: v → foldLetter x = ')' →
    ok (spread v (Function.update (fun k => γ (u.length + 1 + k)) 0 0)) =
      ok (spread v (Function.update (fun k => γ' (u.length + 1 + k)) 0 0))

theorem SameBehind.head {x : Char} {γ γ' : Nat → Nat} (h : SameBehind ok (x :: xs) γ γ')
    (hfold : foldLetter x = ')') :
    ok (spread xs (Function.update (fun k => γ (k + 1)) 0 0)) =
      ok (spread xs (Function.update (fun k => γ' (k + 1)) 0 0)) := by
  have hsame := h [] x xs rfl hfold
  simpa only [List.length_nil, Nat.zero_add, Nat.add_comm 1] using hsame

theorem SameBehind.tail {x : Char} {γ γ' : Nat → Nat} (h : SameBehind ok (x :: xs) γ γ') :
    SameBehind ok xs (fun k => γ (k + 1)) fun k => γ' (k + 1) := by
  intro u y v he hfold
  have hsame := h (x :: u) y v (by rw [he]; rfl) hfold
  simpa only [List.length_cons, Nat.add_right_comm _ 1] using hsame

theorem exists_rules_closing (hx : Inked xs)
    (hq : ∀ s, q.read s = if ok s then some (s, []) else none) (n : Nat) (γ₀ : Nat → Nat) :
    ∃ σ : Nat → GapRule,
      (∀ k, σ k ≠ .keep → ∃ j x, k = j + 1 ∧ xs[j]? = some x ∧ foldLetter x = ')') ∧
      ∀ γ, SameBehind ok xs γ γ₀ →
        Pattern.everywhere (.char ')' :: .gap 0 (some n) :: q)
          (spread xs γ) = spread xs (regap σ γ) := by
  induction xs generalizing γ₀ with
  | nil =>
    refine ⟨fun _ => .keep, fun _ hk => absurd rfl hk, fun γ _ => ?_⟩
    have hsearch := Pattern.seeks_everywhere (a := ')') (p := .char ')' :: .gap 0 (some n) :: q)
      List.mem_cons_self
    have hblanks := hsearch.blanks_append (by decide) (γ 0) []
    rwa [List.append_nil, hsearch.nil, List.append_nil] at hblanks
  | cons x xs ih =>
    by_cases h : foldLetter x = ')' ∧
      ok (spread xs (Function.update (fun k => γ₀ (k + 1)) 0 0)) = true
    · refine ⟨onlyAt 1 (.exactly n), fun k hk => ?_, fun γ hγ => ?_⟩
      · by_cases hk1 : k = 1
        · exact ⟨0, x, hk1, rfl, h.1⟩
        · rw [onlyAt, Function.update_of_ne hk1] at hk
          exact absurd rfl hk
      · rw [everywhere_closing_cons hx hq, if_pos ⟨h.1, (hγ.head h.1).trans h.2⟩,
          regap_onlyAt, GapRule.fit]
    · obtain ⟨σ, htouched, hσ⟩ := ih hx.tail fun k => γ₀ (k + 1)
      refine ⟨passing σ, fun k hk => ?_, fun γ hγ => ?_⟩
      · cases k with
        | zero => exact absurd rfl hk
        | succ k =>
          obtain ⟨j, y, rfl, hy, hfold⟩ := htouched k hk
          exact ⟨j + 1, y, rfl, hy, hfold⟩
      · have hnot : ¬ (foldLetter x = ')' ∧
            ok (spread xs (Function.update (fun k => γ (k + 1)) 0 0)) = true) :=
          fun hγok => h ⟨hγok.1, (hγ.head hγok.1).symm.trans hγok.2⟩
        rw [everywhere_closing_cons hx hq, if_neg hnot, hσ _ hγ.tail, spread_passing]

/-- Setting the gap after a closing parenthesis before a pattern that ends the text is steady if the
pattern is found for all gaps in question or for none. -/
theorem steady_closing (hq : ∀ s, q.read s = if ok s then some (s, []) else none) (hx : Inked xs)
    (hF : Spares F xs ')') (hok : ∀ γ, Alike F γ₀ γ → SameBehind ok xs γ γ₀) (n : Nat) :
    Steady F γ₀ xs (Pattern.everywhere (.char ')' :: .gap 0 (some n) :: q)) := by
  obtain ⟨σ, htouched, hσ⟩ := exists_rules_closing hx hq n γ₀
  refine Steady.of_keep σ (fun k hk => ?_) fun γ hγ => hσ γ (hok γ hγ)
  by_contra hne
  obtain ⟨j, x, hkj, hxj, hfold⟩ := htouched k hne
  exact (hF k hk).2 j x hkj hxj hfold

end

theorem steady_closingAtEnd (hx : Inked xs) (hF : Spares F xs ')') (n : Nat) :
    Steady F γ₀ xs (Gaps.closingAtEnd n).everywhere := by
  have hread (s : List Char) : Pattern.read [.textEnd] s = if s.isEmpty then some (s, [])
      else none := by
    cases s <;> rfl
  refine steady_closing hread hx hF (fun γ _ u x v _ _ => ?_) n
  cases v with
  | nil => rfl
  | cons y v => simp [spread_cons, blanks]

/-- The gaps of the word that ends the text, if it is right after a closing parenthesis: those
between its letters and the one after it. -/
def WordGaps (xs : List Char) (k : Nat) : Prop :=
  ∃ u x v, xs = u ++ x :: v ∧ foldLetter x = ')' ∧ (∀ y ∈ v, isLetter y = true) ∧
    u.length + 1 < k ∧ k ≤ xs.length

theorem isLetter_eq_false_of_fold (hc : c.isLower = false) {x : Char} (h : foldLetter x = c) :
    isLetter x = false := by
  rw [isLetter, h, hc]

/-- The gaps of a word are next to letters only. -/
theorem spares_wordGaps (hc : c.isLower = false) (xs : List Char) : Spares (WordGaps xs) xs c := by
  rintro k ⟨u, x, v, rfl, hfold, hletters, hlow, hhigh⟩
  have hletter {i : Nat} {y : Char} (hi : u.length < i) (hy : (u ++ x :: v)[i]? = some y) :
      foldLetter y ≠ c := by
    obtain ⟨m, rfl⟩ : ∃ m, i = u.length + (m + 1) := ⟨i - u.length - 1, by omega⟩
    rw [List.getElem?_append_right (by omega), Nat.add_sub_cancel_left,
      List.getElem?_cons_succ] at hy
    intro hfold'
    have hfalse := isLetter_eq_false_of_fold hc hfold'
    rw [hletters y (List.mem_of_getElem? hy)] at hfalse
    cases hfalse
  refine ⟨fun y hy => hletter (by omega) hy, fun j y hkj hy => hletter (by omega) hy⟩

theorem all_isLetter_spread (γ : Nat → Nat) :
    (spread xs γ).all isLetter = true ↔
      (∀ y ∈ xs, isLetter y = true) ∧ ∀ k ≤ xs.length, γ k = 0 := by
  have hblanks (m : Nat) : (blanks m).all isLetter = true ↔ m = 0 := by
    have hblank : isLetter ' ' = false := by decide
    simp [blanks, hblank]
  induction xs generalizing γ with
  | nil => simp [hblanks]
  | cons x xs ih =>
    have hrest := ih fun k => γ (k + 1)
    simp only [spread_cons, List.all_append, List.all_cons, Bool.and_eq_true, hblanks, hrest]
    constructor
    · rintro ⟨h0, hx, hletters, hgaps⟩
      refine ⟨List.forall_mem_cons.mpr ⟨hx, hletters⟩, fun k hk => ?_⟩
      cases k with
      | zero => exact h0
      | succ k => exact hgaps k (by simpa using hk)
    · rintro ⟨hletters, hgaps⟩
      obtain ⟨hx, hletters⟩ := List.forall_mem_cons.mp hletters
      exact ⟨hgaps 0 (by omega), hx, hletters, fun k hk => hgaps (k + 1) (by simpa using hk)⟩

theorem read_letters_textEnd (s : List Char) :
    Pattern.read [.letters, .textEnd] s = if s.all isLetter then some (s, []) else none := by
  by_cases hs : s.all isLetter = true
  · have hall : ∀ c ∈ s, isLetter c = true := List.all_eq_true.mp hs
    have hdrop : s.dropWhile isLetter = [] := List.dropWhile_eq_nil_iff.mpr hall
    have htake : s.takeWhile isLetter = s := List.takeWhile_eq_self_iff.mpr hall
    simp [Pattern.read, Piece.read, hdrop, htake, hs]
  · have hdrop : s.dropWhile isLetter ≠ [] := by
      intro hnil
      exact hs (List.all_eq_true.mpr (List.dropWhile_eq_nil_iff.mp hnil))
    simp [Pattern.read, Piece.read, hdrop, hs]

theorem steady_closingThenWord (hx : Inked xs) (n : Nat) :
    Steady (WordGaps xs) γ₀ xs (Gaps.closingThenWord n).everywhere := by
  refine steady_closing read_letters_textEnd hx (spares_wordGaps (by decide) xs)
    (fun γ hγ u x v he hfold => ?_) n
  rw [Bool.eq_iff_iff, all_isLetter_spread, all_isLetter_spread]
  refine and_congr_right fun hletters => forall₂_congr fun k hk => ?_
  cases k with
  | zero => rfl
  | succ k =>
    refine (hγ (u.length + 1 + (k + 1)) ⟨u, x, v, he, hfold, hletters, by omega, ?_⟩).symm
    rw [he, List.length_append, List.length_cons]
    omega

/-! ## Arrows -/

/-- The gaps between an equals sign and a greater sign. -/
def ArrowGaps (xs : List Char) : Nat → Prop := Between xs fun x y => x = '=' ∧ y = '>'

theorem hasArrow_cons (x : Char) (s : List Char) :
    Gaps.hasArrow (x :: s) = (x == '=' && s.head? == some '>' || Gaps.hasArrow s) := by
  cases s with
  | nil => simp [Gaps.hasArrow]
  | cons y s => rfl

theorem hasArrow_blanks_append (m : Nat) (s : List Char) :
    Gaps.hasArrow (blanks m ++ s) = Gaps.hasArrow s := by
  induction m with
  | zero => rfl
  | succ m ih =>
    rw [blanks, List.replicate_succ, List.cons_append, hasArrow_cons, ← blanks, ih]
    rfl

/-- A text has an arrow if the gap inside one is empty. -/
theorem hasArrow_spread (γ : Nat → Nat) :
    Gaps.hasArrow (spread xs γ) = true ↔ ∃ k, ArrowGaps xs k ∧ γ k = 0 := by
  induction xs generalizing γ with
  | nil =>
    have hnil := hasArrow_blanks_append (γ 0) []
    rw [List.append_nil] at hnil
    rw [spread_nil, hnil]
    simp [ArrowGaps, Between, Gaps.hasArrow]
  | cons x xs ih =>
    have hrest := ih fun k => γ (k + 1)
    rw [spread_cons, hasArrow_blanks_append, hasArrow_cons, Bool.or_eq_true, hrest]
    constructor
    · rintro (harrow | ⟨k, ⟨j, y, z, rfl, hy, hz, hyz⟩, hk⟩)
      · -- The arrow at the start: the next character is there, with no blank before it.
        simp only [Bool.and_eq_true, beq_iff_eq] at harrow
        cases xs with
        | nil =>
          have hhead := harrow.2
          rw [spread_nil] at hhead
          have hmem := List.mem_of_mem_head? hhead
          exact absurd (List.eq_of_mem_replicate hmem) (by decide)
        | cons y ys =>
          rw [spread_cons] at harrow
          cases h0 : γ 1 with
          | zero =>
            refine ⟨1, ⟨0, x, y, rfl, rfl, rfl, harrow.1, ?_⟩, h0⟩
            simpa [h0, blanks] using harrow.2
          | succ m => simp [h0, blanks, List.replicate_succ] at harrow
      · exact ⟨j + 1 + 1, ⟨j + 1, y, z, rfl, hy, hz, hyz⟩, hk⟩
    · rintro ⟨k, ⟨j, y, z, rfl, hy, hz, hyz⟩, hk⟩
      cases j with
      | zero =>
        cases xs with
        | nil => simp at hz
        | cons w ws =>
          obtain rfl : x = y := by simpa using hy
          obtain rfl : w = z := by simpa using hz
          left
          simp [spread_cons, hk, hyz.1, hyz.2, blanks]
      | succ j => exact Or.inr ⟨j + 1, ⟨j, y, z, rfl, hy, hz, hyz⟩, hk⟩

end FortranLayout.Text
