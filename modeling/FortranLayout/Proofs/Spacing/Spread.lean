import FortranLayout.Text.Pattern
import Mathlib.Data.List.Induction
import Mathlib.Logic.Function.Basic

/-!
# Texts as characters with gaps between them

A text is its characters other than blanks, spread out by a gap of blanks before each of them and
one after the last. A spacing edit chooses for each gap one of three rules: keep it, make it so
wide, or make it so wide unless it is empty. These rules are closed under composition and each of
them is idempotent, so an edit that chooses its rules by the characters alone, and any run of such
edits, is idempotent as a whole.

An edit may also look at whether some gaps are empty, as the search for a keyword does. Such gaps
are *frozen*: an edit is `Steady` if its choice is the same for all gaps that agree on which of the
frozen ones are empty, and it fills and empties no frozen gap.
-/

namespace FortranLayout.Text

/-- The characters `xs`, with `γ k` blanks before character `k`. -/
def strew : List Char → (Nat → Nat) → List Char
  | [], _ => []
  | x :: xs, γ => blanks (γ 0) ++ x :: strew xs fun k => γ (k + 1)

/-- The characters `xs`, with `γ k` blanks before character `k` and after the last one. -/
def spread (xs : List Char) (γ : Nat → Nat) : List Char := strew xs γ ++ blanks (γ xs.length)

/-- The number of blanks before character `k` of a text other than a blank, and after the last one.
-/
def gapsOf : List Char → Nat → Nat
  | [], _ => 0
  | c :: s, 0 => if isBlank c then gapsOf s 0 + 1 else 0
  | c :: s, k + 1 => if isBlank c then gapsOf s (k + 1) else gapsOf s k

/-- No blank is among the characters. -/
def Inked (xs : List Char) : Prop := ∀ x ∈ xs, isBlank x = false

theorem inked_squeeze (s : List Char) : Inked (squeeze s) := by
  intro x hx
  simpa using (List.mem_filter.mp hx).2

theorem Inked.tail {x : Char} {xs : List Char} (h : Inked (x :: xs)) : Inked xs :=
  fun y hy => h y (List.mem_cons_of_mem x hy)

theorem Inked.drop {xs : List Char} (h : Inked xs) (m : Nat) : Inked (xs.drop m) :=
  fun y hy => h y (List.mem_of_mem_drop hy)

section

variable {xs ys : List Char} {x : Char} {γ γ' : Nat → Nat} {n : Nat}

@[simp] theorem spread_nil (γ : Nat → Nat) : spread [] γ = blanks (γ 0) := rfl

theorem spread_cons (x : Char) (xs : List Char) (γ : Nat → Nat) :
    spread (x :: xs) γ = blanks (γ 0) ++ x :: spread xs fun k => γ (k + 1) := by
  simp [spread, strew]

theorem strew_congr (h : ∀ k < xs.length, γ k = γ' k) : strew xs γ = strew xs γ' := by
  induction xs generalizing γ γ' with
  | nil => rfl
  | cons x xs ih =>
    have hrest : strew xs (fun k => γ (k + 1)) = strew xs fun k => γ' (k + 1) := by
      apply ih
      intro k hk
      exact h (k + 1) (by simpa using hk)
    rw [strew, strew, h 0 (by simp), hrest]

theorem strew_append (xs ys : List Char) (γ : Nat → Nat) :
    strew (xs ++ ys) γ = strew xs γ ++ strew ys fun k => γ (xs.length + k) := by
  induction xs generalizing γ with
  | nil => simp [strew]
  | cons x xs ih =>
    rw [List.cons_append, strew, strew, ih, List.length_cons]
    simp only [List.append_assoc, List.cons_append, Nat.add_right_comm _ 1]

theorem spread_append (xs ys : List Char) (γ : Nat → Nat) :
    spread (xs ++ ys) γ = strew xs γ ++ spread ys fun k => γ (xs.length + k) := by
  simp [spread, strew_append]

theorem spread_zero (xs : List Char) : spread xs (fun _ => 0) = xs := by
  induction xs with
  | nil => rfl
  | cons x xs ih => rw [spread_cons, ih, blanks, List.replicate_zero, List.nil_append]

theorem squeeze_eq_self (h : Inked xs) : squeeze xs = xs := by
  apply List.filter_eq_self.mpr
  intro x hx
  simp [h x hx]

theorem squeeze_spread (h : Inked xs) (γ : Nat → Nat) : squeeze (spread xs γ) = xs := by
  induction xs generalizing γ with
  | nil => simp
  | cons x xs ih =>
    have hx : squeeze [x] = [x] := squeeze_eq_self fun y hy => h y (by simp_all)
    rw [spread_cons, ← List.singleton_append, squeeze_append, squeeze_append, squeeze_blanks, hx,
      ih h.tail]
    rfl

theorem mem_squeeze {c : Char} (hc : isBlank c = false) {s : List Char} :
    c ∈ squeeze s ↔ c ∈ s := by
  simp [squeeze, hc]

theorem tab_not_mem_expandTabs (s : List Char) : '\t' ∉ expandTabs s := by
  intro h
  obtain ⟨c, _, hc⟩ := List.mem_flatMap.mp h
  split at hc
  · cases List.eq_of_mem_replicate hc
  · rename_i hne
    exact hne (List.mem_singleton.mp hc).symm

theorem mem_expandTabs {c : Char} (ht : c ≠ '\t') {s : List Char} (h : c ∈ s) :
    c ∈ expandTabs s := by
  refine List.mem_flatMap.mpr ⟨c, h, ?_⟩
  rw [if_neg ht]
  exact List.mem_singleton_self c

theorem expandTabs_eq_self {s : List Char} (h : '\t' ∉ s) : expandTabs s = s := by
  induction s with
  | nil => rfl
  | cons c s ih =>
    rw [List.mem_cons, not_or] at h
    rw [expandTabs, List.flatMap_cons, if_neg fun e => h.1 e.symm, ← expandTabs, ih h.2]
    rfl

theorem expandTabs_spread (h : Inked xs) (htab : '\t' ∉ xs) (γ : Nat → Nat) :
    expandTabs (spread xs γ) = spread xs γ := by
  apply expandTabs_eq_self
  rw [← mem_squeeze (by decide), squeeze_spread h]
  exact htab

/-- Every text is its characters spread out by its gaps. -/
theorem spread_gapsOf (s : List Char) : spread (squeeze s) (gapsOf s) = s := by
  induction s with
  | nil => rfl
  | cons c s ih =>
    by_cases hc : isBlank c = true
    · -- One more blank in the first gap.
      have hblank : c = ' ' := by simpa [isBlank] using hc
      have hsq : squeeze (c :: s) = squeeze s := by simp [squeeze, hc]
      have hgaps : gapsOf (c :: s) = Function.update (gapsOf s) 0 (gapsOf s 0 + 1) := by
        funext k
        cases k <;> simp [gapsOf, hc]
      have hmore : spread (squeeze s) (Function.update (gapsOf s) 0 (gapsOf s 0 + 1)) =
          c :: spread (squeeze s) (gapsOf s) := by
        cases squeeze s with
        | nil => simp [hblank, blanks, List.replicate_succ]
        | cons x xs => simp [hblank, spread_cons, blanks, List.replicate_succ]
      rw [hsq, hgaps, hmore, ih]
    · have hsq : squeeze (c :: s) = c :: squeeze s := by simp [squeeze, hc]
      rw [hsq, spread_cons]
      simp [gapsOf, hc, blanks, ih]

/-! ## Stripping and padding -/

theorem stripLeft_blanks_append (n : Nat) (s : List Char) :
    stripLeft (blanks n ++ s) = stripLeft s :=
  List.dropWhile_append_of_pos fun _ => isBlank_of_mem_blanks

theorem stripLeft_spread (h : Inked xs) :
    stripLeft (spread xs γ) = spread xs (Function.update γ 0 0) := by
  cases xs with
  | nil => simp [blanks, stripLeft, isBlank]
  | cons x xs =>
    rw [spread_cons, spread_cons, stripLeft_blanks_append, stripLeft, List.dropWhile_cons_of_neg]
    · simp [blanks]
    · simp [h x List.mem_cons_self]

theorem leadWith_spread (h : Inked xs) (n : Nat) :
    leadWith n (spread xs γ) = spread xs (Function.update γ 0 n) := by
  rw [leadWith, stripLeft_spread h]
  cases xs with
  | nil => simp [blanks]
  | cons x xs => simp [spread_cons, blanks]

theorem stripRight_append_blanks (s : List Char) (n : Nat) :
    stripRight (s ++ blanks n) = stripRight s := by
  have hreverse : (blanks n).reverse = blanks n := by simp [blanks]
  have hstrip := stripLeft_blanks_append n s.reverse
  rw [stripRight, List.reverse_append, hreverse, ← stripLeft, hstrip, stripLeft, stripRight]

theorem stripRight_strew (h : Inked xs) (γ : Nat → Nat) : stripRight (strew xs γ) = strew xs γ := by
  cases xs using List.reverseRecOn with
  | nil => rfl
  | append_singleton xs x =>
    have hx : isBlank x = false := h x (by simp)
    rw [strew_append, strew]
    simp [strew, stripRight, hx]

theorem endWith_spread (h : Inked xs) (n : Nat) :
    endWith n (spread xs γ) = spread xs (Function.update γ xs.length n) := by
  have hinner : strew xs (Function.update γ xs.length n) = strew xs γ := by
    apply strew_congr
    intro k hk
    rw [Function.update_of_ne (by omega)]
  rw [endWith, spread, stripRight_append_blanks, stripRight_strew h, spread, hinner,
    Function.update_self]

end

/-! ## Rules for gaps -/

/-- What an edit does to a gap. -/
inductive GapRule where
  /-- As it is. -/
  | keep
  /-- Exactly `n` blanks. -/
  | exactly (n : Nat)
  /-- Exactly `n` blanks, unless there are none. -/
  | refit (n : Nat)

namespace GapRule

/-- The width that a gap of width `m` gets. -/
def fit : GapRule → Nat → Nat
  | keep, m => m
  | exactly n, _ => n
  | refit n, m => if m = 0 then 0 else n

/-- First `earlier`, then `later`. -/
def comp : (later earlier : GapRule) → GapRule
  | keep, earlier => earlier
  | exactly n, _ => exactly n
  | refit n, keep => refit n
  | refit n, exactly m => exactly (if m = 0 then 0 else n)
  | refit n, refit m => refit (if m = 0 then 0 else n)

theorem fit_comp (later earlier : GapRule) (m : Nat) :
    (later.comp earlier).fit m = later.fit (earlier.fit m) := by
  cases later <;> cases earlier <;> simp only [comp, fit] <;> split <;> simp_all

theorem fit_fit (ρ : GapRule) (m : Nat) : ρ.fit (ρ.fit m) = ρ.fit m := by
  cases ρ with
  | keep => rfl
  | exactly n => rfl
  | refit n =>
    simp only [fit]
    split <;> simp_all

end GapRule

/-- The gaps after a rule for each of them. -/
def regap (σ : Nat → GapRule) (γ : Nat → Nat) (k : Nat) : Nat := (σ k).fit (γ k)

@[simp] theorem regap_keep (γ : Nat → Nat) : regap (fun _ => .keep) γ = γ := rfl

/-- The rule for one gap, all others kept. -/
def onlyAt (k : Nat) (ρ : GapRule) : Nat → GapRule := Function.update (fun _ => .keep) k ρ

theorem regap_onlyAt (k : Nat) (ρ : GapRule) (γ : Nat → Nat) :
    regap (onlyAt k ρ) γ = Function.update γ k (ρ.fit (γ k)) := by
  funext j
  by_cases hj : j = k
  · subst hj
    simp [regap, onlyAt]
  · simp [regap, onlyAt, hj, GapRule.fit]

/-- The rules for a text whose first character is passed, and the rules for what is behind it. -/
def passing (σ : Nat → GapRule) : Nat → GapRule
  | 0 => .keep
  | k + 1 => σ k

theorem spread_passing (x : Char) (xs : List Char) (σ : Nat → GapRule) (γ : Nat → Nat) :
    spread (x :: xs) (regap (passing σ) γ) =
      blanks (γ 0) ++ x :: spread xs (regap σ fun k => γ (k + 1)) := by
  rw [spread_cons]
  rfl

/-- The gaps agree on which of those in `F` are empty. -/
def Alike (F : Nat → Prop) (γ γ' : Nat → Nat) : Prop := ∀ k, F k → (γ k = 0 ↔ γ' k = 0)

theorem Alike.symm {F : Nat → Prop} {γ γ' : Nat → Nat} (h : Alike F γ γ') : Alike F γ' γ :=
  fun k hk => (h k hk).symm

theorem Alike.update_zero {F : Nat → Prop} {γ γ' : Nat → Nat} (h : Alike F γ γ') :
    Alike F (Function.update γ 0 0) (Function.update γ' 0 0) := by
  intro k hk
  cases k with
  | zero => rfl
  | succ k => exact h (k + 1) hk

/-- On the characters `xs`, the edit `g` applies one rule to each gap, whatever the gaps are like
where they are not frozen. -/
def Steady (F : Nat → Prop) (γ₀ : Nat → Nat) (xs : List Char) (g : List Char → List Char) : Prop :=
  ∃ σ, ∀ γ, Alike F γ₀ γ → g (spread xs γ) = spread xs (regap σ γ) ∧ Alike F γ₀ (regap σ γ)

namespace Steady

variable {F : Nat → Prop} {γ₀ : Nat → Nat} {xs : List Char} {g g' : List Char → List Char} {n : Nat}

theorem id : Steady F γ₀ xs fun s => s :=
  ⟨fun _ => .keep, fun _ hγ => ⟨rfl, hγ⟩⟩

theorem comp (hg' : Steady F γ₀ xs g') (hg : Steady F γ₀ xs g) :
    Steady F γ₀ xs fun s => g' (g s) := by
  obtain ⟨σ, hσ⟩ := hg
  obtain ⟨σ', hσ'⟩ := hg'
  refine ⟨fun k => (σ' k).comp (σ k), fun γ hγ => ?_⟩
  obtain ⟨he, ha⟩ := hσ γ hγ
  have hcomp : regap (fun k => (σ' k).comp (σ k)) γ = regap σ' (regap σ γ) :=
    funext fun k => GapRule.fit_comp _ _ _
  dsimp only
  rw [he, hcomp]
  exact hσ' _ ha

/-- Edits that do the same to all texts in question. -/
theorem congr (h : ∀ γ, Alike F γ₀ γ → g' (spread xs γ) = g (spread xs γ)) (hg : Steady F γ₀ xs g) :
    Steady F γ₀ xs g' := by
  obtain ⟨σ, hσ⟩ := hg
  refine ⟨σ, fun γ hγ => ?_⟩
  rw [h γ hγ]
  exact hσ γ hγ

/-- An edit that keeps the frozen gaps. -/
theorem of_keep (σ : Nat → GapRule) (hF : ∀ k, F k → σ k = .keep)
    (h : ∀ γ, Alike F γ₀ γ → g (spread xs γ) = spread xs (regap σ γ)) : Steady F γ₀ xs g := by
  refine ⟨σ, fun γ hγ => ⟨h γ hγ, fun k hk => ?_⟩⟩
  rw [regap, hF k hk]
  exact hγ k hk

/-- An edit that sets one gap. -/
theorem of_update {k : Nat} (hF : ¬ F k)
    (h : ∀ γ, g (spread xs γ) = spread xs (Function.update γ k n)) : Steady F γ₀ xs g := by
  refine of_keep (onlyAt k (.exactly n)) ?_ fun γ _ => ?_
  · intro j hj
    have hjk : j ≠ k := fun e => hF (e ▸ hj)
    rw [onlyAt, Function.update_of_ne hjk]
  · rw [regap_onlyAt]
    exact h γ

theorem leadWith (hx : Inked xs) (hF : ¬ F 0) (n : Nat) : Steady F γ₀ xs (leadWith n) :=
  of_update hF fun _ => leadWith_spread hx n

theorem endWith (hx : Inked xs) (hF : ¬ F xs.length) (n : Nat) : Steady F γ₀ xs (endWith n) :=
  of_update hF fun _ => endWith_spread hx n

theorem strip (hx : Inked xs) (h0 : ¬ F 0) (hlast : ¬ F xs.length) : Steady F γ₀ xs strip := by
  refine ((Steady.endWith hx hlast 0).comp (Steady.leadWith hx h0 0)).congr fun γ _ => ?_
  simp [Text.endWith, Text.leadWith, Text.strip, blanks]

theorem squeeze (hx : Inked xs) (hF : ∀ k, ¬ F k) : Steady F γ₀ xs squeeze := by
  refine of_keep (fun _ => .exactly 0) (fun k hk => absurd hk (hF k)) fun γ _ => ?_
  rw [squeeze_spread hx]
  exact (spread_zero xs).symm

/-- Moving the leading blanks to the end is steady where there is nothing to move them over, or no
blank to put there. -/
theorem shiftRight (hx : Inked xs) (hF : ¬ F 0) (h : xs = [] ∨ n = 0) :
    Steady F γ₀ xs (shiftRight n) := by
  rcases h with rfl | rfl
  · refine of_update (n := n) hF fun γ => ?_
    rw [Text.shiftRight, stripLeft_spread hx]
    simp [blanks]
  · refine (Steady.leadWith hx hF 0).congr fun γ _ => ?_
    simp [Text.shiftRight, Text.leadWith, blanks]

/-- Ending with blanks a text that is not empty. -/
theorem endWith_of_ne_nil (hx : Inked xs) (hF : ¬ F xs.length) (n : Nat) :
    Steady F γ₀ xs fun s => if s.isEmpty then s else Text.endWith n s := by
  cases xs with
  | nil =>
    refine of_keep (onlyAt 0 (.refit n)) ?_ fun γ _ => ?_
    · intro k hk
      have hk0 : k ≠ 0 := by
        rintro rfl
        exact hF hk
      rw [onlyAt, Function.update_of_ne hk0]
    · rw [endWith_spread hx]
      by_cases h0 : γ 0 = 0 <;> simp [h0, regap, onlyAt, GapRule.fit, blanks]
  | cons x xs =>
    refine (Steady.endWith hx hF n).congr fun γ _ => ?_
    simp [spread_cons]

end Steady

end FortranLayout.Text
