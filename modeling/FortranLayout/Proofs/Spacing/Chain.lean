import FortranLayout.Proofs.Matches
import FortranLayout.Proofs.Spacing.Spread

/-!
# Chains of characters

The patterns of the spacing rules are chains: characters, each joined to what is before it without
blanks, by a gap that is kept or by a gap that is set, and possibly one more gap that is set after
the last character. Where a chain is found depends on the characters of the text and on whether the
gaps inside its words are empty, on nothing else; so replacing it everywhere is steady
(`Chain.steady_everywhere`).
-/

namespace FortranLayout.Text

/-- How a character of a chain is joined to what is before it. -/
inductive Link where
  /-- Without blanks. -/
  | tight
  /-- By any number of blanks, which are kept. -/
  | loose
  /-- By any number of blanks, which are set. -/
  | fitted
deriving DecidableEq

namespace Link

/-- The pieces of a pattern before the character, where gaps are set to `n`. -/
def pieces (n : Nat) : Link → Pattern
  | tight => []
  | loose => [.gap 0 none]
  | fitted => [.gap 0 (some n)]

def rule (n : Nat) : Link → GapRule
  | fitted => .exactly n
  | _ => .keep

end Link

/-- Characters with their links. -/
abbrev Chain := List (Link × Char)

namespace Chain

/-- The pattern that finds a chain and sets its gaps to `n`. -/
def pattern (n : Nat) : Chain → Pattern
  | [] => []
  | l :: ls => l.1.pieces n ++ .char l.2 :: pattern n ls

/-- The chain is found at the start of the characters `xs` with the gaps `γ`. -/
def Fits : Chain → List Char → (Nat → Nat) → Prop
  | [], _, _ => True
  | _ :: _, [], _ => False
  | l :: ls, x :: xs, γ =>
    (l.1 = .tight → γ 0 = 0) ∧ foldLetter x = l.2 ∧ Fits ls xs fun k => γ (k + 1)

/-- The rules for the gaps of a text that starts with the chain. -/
def rules (n : Nat) (ls : Chain) (k : Nat) : GapRule :=
  match ls[k]? with
  | some l => l.1.rule n
  | none => .keep

/-- The pairs of neighbours that are joined without blanks. -/
def ties : Chain → List (Char × Char)
  | l :: l' :: ls => if l'.1 = .tight then (l.2, l'.2) :: ties (l' :: ls) else ties (l' :: ls)
  | _ => []

/-- The pairs of neighbours that are joined by a gap. -/
def seams : Chain → List (Char × Char)
  | l :: l' :: ls => if l'.1 = .tight then seams (l' :: ls) else (l.2, l'.2) :: seams (l' :: ls)
  | _ => []

end Chain

/-- Gap `k` of `xs` is between two characters that are related by `R`. -/
def Between (xs : List Char) (R : Char → Char → Prop) (k : Nat) : Prop :=
  ∃ j x y, k = j + 1 ∧ xs[j]? = some x ∧ xs[j + 1]? = some y ∧ R x y

/-- Two characters are a pair of the list, without regard to letter case. -/
def Paired (pairs : List (Char × Char)) (x y : Char) : Prop := (foldLetter x, foldLetter y) ∈ pairs

theorem Between.of_drop {xs : List Char} {R : Char → Char → Prop} {m k : Nat}
    (h : Between (xs.drop m) R k) : Between xs R (m + k) := by
  obtain ⟨j, x, y, rfl, hx, hy, hR⟩ := h
  rw [List.getElem?_drop] at hx hy
  exact ⟨m + j, x, y, by omega, hx, hy, hR⟩

/-- One gap is not between two pairs of characters. -/
theorem Between.not_between {xs : List Char} {pairs pairs' : List (Char × Char)} {k : Nat}
    (h : Between xs (Paired pairs) k) (hpairs : ∀ p ∈ pairs', p ∉ pairs) :
    ¬ Between xs (Paired pairs') k := by
  rintro ⟨j, x, y, hj, hx, hy, hpair'⟩
  obtain ⟨i, x', y', hi, hx', hy', hpair⟩ := h
  obtain rfl : i = j := by omega
  obtain rfl : x' = x := Option.some.inj (hx'.symm.trans hx)
  obtain rfl : y' = y := Option.some.inj (hy'.symm.trans hy)
  exact hpairs _ hpair' hpair

/-! ## Reading a chain -/

section

variable {xs : List Char} {x c : Char} {γ γ' : Nat → Nat} {n : Nat} {p : Pattern}

theorem update_zero_of_eq (h : γ 0 = 0) : Function.update γ 0 0 = γ := by
  have hself := Function.update_eq_self 0 γ
  rwa [h] at hself

theorem Pattern.read_char_cons (c x : Char) (p : Pattern) (s : List Char) :
    Pattern.read (.char c :: p) (x :: s) =
      if foldLetter x = c then (p.read s).map fun m => (x :: m.1, m.2) else none := by
  by_cases hx : foldLetter x = c
  · simp only [read, Piece.read, hx, if_true]
    cases p.read s <;> rfl
  · simp only [read, Piece.read, hx, if_false]

/-- A blank is no form of another character. -/
theorem Pattern.read_char_blank (hc : c ≠ ' ') (s : List Char) :
    Pattern.read (.char c :: p) (' ' :: s) = none := by
  have hfold : foldLetter ' ' = ' ' := by decide
  rw [read_char_cons, if_neg]
  rw [hfold]
  exact hc.symm

/-- A gap reads the first gap of a text, all of it. -/
theorem Pattern.read_gap_spread (hx : Inked xs) (w : Option Nat) (p : Pattern) :
    Pattern.read (.gap 0 w :: p) (spread xs γ) =
      (p.read (spread xs (Function.update γ 0 0))).map fun m =>
        (blanks (w.getD (γ 0)) ++ m.1, m.2) := by
  have hdrop : (spread xs γ).dropWhile isBlank = spread xs (Function.update γ 0 0) :=
    stripLeft_spread hx
  have htake : (spread xs γ).takeWhile isBlank = blanks (γ 0) := by
    cases xs with
    | nil => simp [blanks, isBlank]
    | cons y ys =>
      have hy := hx y List.mem_cons_self
      rw [spread_cons, List.takeWhile_append_of_pos]
      · simp [hy]
      · exact fun _ => isBlank_of_mem_blanks
  simp only [read, Piece.read, Nat.not_lt_zero, if_false, hdrop, htake]
  cases p.read (spread xs (Function.update γ 0 0)) <;> cases w <;> rfl

theorem Pattern.read_link (hx : Inked (x :: xs)) (l : Link) (hl : l = .tight → γ 0 = 0)
    (p : Pattern) :
    (l.pieces n ++ .char (foldLetter x) :: p).read (spread (x :: xs) γ) =
      (p.read (spread xs fun k => γ (k + 1))).map fun m =>
        (blanks ((l.rule n).fit (γ 0)) ++ x :: m.1, m.2) := by
  have hrest (m : Nat) : spread (x :: xs) (Function.update γ 0 m) =
      blanks m ++ x :: spread xs fun k => γ (k + 1) := by
    rw [spread_cons]
    rfl
  cases l with
  | tight =>
    rw [← update_zero_of_eq (hl rfl), hrest]
    simp only [Link.pieces, List.nil_append, blanks, List.replicate_zero, read_char_cons, if_true]
    simp [Link.rule, GapRule.fit]
  | loose =>
    rw [Link.pieces, List.singleton_append, read_gap_spread hx, hrest]
    simp only [blanks, List.replicate_zero, List.nil_append, read_char_cons,
      if_true, Option.map_map]
    rfl
  | fitted =>
    rw [Link.pieces, List.singleton_append, read_gap_spread hx, hrest]
    simp only [blanks, List.replicate_zero, List.nil_append, read_char_cons,
      if_true, Option.map_map]
    rfl

theorem Pattern.read_link_eq_none (hx : Inked xs) (hc : c ≠ ' ') (l : Link)
    (h : ∀ y ys, xs = y :: ys → ¬ ((l = .tight → γ 0 = 0) ∧ foldLetter y = c)) (p : Pattern) :
    (l.pieces n ++ .char c :: p).read (spread xs γ) = none := by
  -- Behind the first gap there is no character, or not the right one.
  have hclosed (h : ∀ y ys, xs = y :: ys → foldLetter y ≠ c) :
      Pattern.read (.char c :: p) (spread xs (Function.update γ 0 0)) = none := by
    cases xs with
    | nil => rfl
    | cons y ys =>
      rw [spread_cons, Function.update_self, blanks, List.replicate_zero, List.nil_append,
        read_char_cons, if_neg (h y ys rfl)]
  cases l with
  | tight =>
    rw [Link.pieces, List.nil_append]
    by_cases h0 : γ 0 = 0
    · rw [← update_zero_of_eq h0]
      exact hclosed fun y ys he hy => h y ys he ⟨fun _ => h0, hy⟩
    · obtain ⟨m, hm⟩ := Nat.exists_eq_succ_of_ne_zero h0
      cases xs with
      | nil =>
        rw [spread_nil, hm, blanks, List.replicate_succ]
        exact read_char_blank hc _
      | cons y ys =>
        rw [spread_cons, hm, blanks, List.replicate_succ]
        exact read_char_blank hc _
  | loose =>
    rw [Link.pieces, List.singleton_append, read_gap_spread hx,
      hclosed fun y ys he hy => h y ys he ⟨by simp, hy⟩]
    rfl
  | fitted =>
    rw [Link.pieces, List.singleton_append, read_gap_spread hx,
      hclosed fun y ys he hy => h y ys he ⟨by simp, hy⟩]
    rfl

end

namespace Chain

variable {ls : Chain} {l : Link × Char} {xs : List Char} {γ γ' : Nat → Nat} {n : Nat} {t : Bool}

theorem rules_cons_succ (n : Nat) (l : Link × Char) (ls : Chain) (k : Nat) :
    rules n (l :: ls) (k + 1) = rules n ls k := by
  simp [rules]

theorem Fits.length_le (h : ls.Fits xs γ) : ls.length ≤ xs.length := by
  induction ls generalizing xs γ with
  | nil => simp
  | cons l ls ih =>
    cases xs with
    | nil => exact h.elim
    | cons x xs => simpa using ih h.2.2

/-- Reading a chain that fits sets its gaps and leaves the rest of the text. -/
theorem read_of_fits (hx : Inked xs) (h : ls.Fits xs γ) (q : Pattern) :
    (ls.pattern n ++ q).read (spread xs γ) =
      (q.read (spread (xs.drop ls.length) fun k => γ (ls.length + k))).map fun m =>
        (strew (xs.take ls.length) (regap (ls.rules n) γ) ++ m.1, m.2) := by
  induction ls generalizing xs γ with
  | nil => simp [pattern, strew]
  | cons l ls ih =>
    cases xs with
    | nil => exact h.elim
    | cons x xs =>
      obtain ⟨hl, hfold, hrest⟩ := h
      have hgaps : (fun k => regap (rules n (l :: ls)) γ (k + 1)) =
          regap (rules n ls) fun k => γ (k + 1) := by
        funext k
        rw [regap, regap, rules_cons_succ]
      have hhead : regap (rules n (l :: ls)) γ 0 = (l.1.rule n).fit (γ 0) := rfl
      rw [pattern, ← hfold, List.append_assoc, List.cons_append, Pattern.read_link hx l.1 hl,
        ih hx.tail hrest, Option.map_map]
      simp only [List.length_cons, List.drop_succ_cons, List.take_succ_cons, strew, hgaps, hhead,
        Nat.add_right_comm _ 1]
      congr 1
      funext m
      simp

theorem read_of_not_fits (hx : Inked xs) (hc : ∀ l ∈ ls, l.2 ≠ ' ') (h : ¬ ls.Fits xs γ)
    (q : Pattern) : (ls.pattern n ++ q).read (spread xs γ) = none := by
  induction ls generalizing xs γ with
  | nil => exact absurd trivial h
  | cons l ls ih =>
    rw [pattern, List.append_assoc, List.cons_append]
    by_cases hl : ∃ y ys, xs = y :: ys ∧ (l.1 = .tight → γ 0 = 0) ∧ foldLetter y = l.2
    · obtain ⟨y, ys, rfl, ht, hy⟩ := hl
      have hrest : ¬ Fits ls ys fun k => γ (k + 1) := fun hfits => h ⟨ht, hy, hfits⟩
      rw [← hy, Pattern.read_link hx l.1 ht,
        ih hx.tail (fun l' hl' => hc l' (List.mem_cons_of_mem _ hl')) hrest]
      rfl
    · exact Pattern.read_link_eq_none hx (hc l List.mem_cons_self) l.1
        (fun y ys he hy => hl ⟨y, ys, he, hy⟩) _

/-- Whether a chain fits depends on which of the gaps at its ties are empty. -/
theorem Fits.congr (h0 : ∀ l ls' x xs', ls = l :: ls' → xs = x :: xs' → foldLetter x = l.2 →
      l.1 = .tight → γ 0 = 0 → γ' 0 = 0)
    (ha : Alike (Between xs (Paired ls.ties)) γ γ') (h : ls.Fits xs γ) : ls.Fits xs γ' := by
  induction ls generalizing xs γ γ' with
  | nil => trivial
  | cons l ls ih =>
    cases xs with
    | nil => exact h.elim
    | cons x xs =>
      obtain ⟨hl, hfold, hrest⟩ := h
      refine ⟨fun ht => h0 l ls x xs rfl rfl hfold ht (hl ht), hfold, ih ?_ ?_ hrest⟩
      · -- The next link: where it is tight, the gap before it is at a tie.
        rintro l' ls' y ys rfl rfl hy ht hzero
        have htie : Between (x :: y :: ys) (Paired (ties (l :: l' :: ls'))) 1 := by
          refine ⟨0, x, y, rfl, rfl, rfl, ?_⟩
          rw [Paired, ties, if_pos ht, hfold, hy]
          exact List.mem_cons_self
        exact (ha 1 htie).mp hzero
      · intro k hk
        obtain ⟨j, y, z, rfl, hy, hz, hpair⟩ := hk
        refine ha (j + 1 + 1) ⟨j + 1, y, z, rfl, hy, hz, ?_⟩
        rw [Paired] at hpair ⊢
        cases ls with
        | nil => simp [ties] at hpair
        | cons l' ls' =>
          rw [ties]
          split
          · exact List.mem_cons_of_mem _ hpair
          · exact hpair

/-! ## Replacing a chain everywhere -/

/-- The pattern of a chain, with a gap after it if `t`. -/
def sweep (n : Nat) (t : Bool) (ls : Chain) : Pattern :=
  ls.pattern n ++ if t then [.gap 0 (some n)] else []

/-- The chain begins with a character, or with a gap that is set and then not with one after it as
well; and it has no blank as a character. -/
structure Sound (t : Bool) (l : Link × Char) (ls : Chain) : Prop where
  head : l.1 = .tight ∨ l.1 = .fitted ∧ t = false
  char_ne : ∀ l' ∈ l :: ls, l'.2 ≠ ' '

/-- The gaps of `xs` that replacing a chain may set: before its first character, after its last one
and at its seams. -/
def Touched (t : Bool) (l : Link × Char) (ls : Chain) (xs : List Char) (k : Nat) : Prop :=
  (l.1 = .fitted ∧ ∃ x, xs[k]? = some x ∧ foldLetter x = l.2) ∨
    (t = true ∧ ∃ j x, k = j + 1 ∧ xs[j]? = some x ∧
      ∃ l' ∈ (l :: ls).getLast?, foldLetter x = l'.2) ∨
    Between xs (Paired (seams (l :: ls))) k

theorem Touched.of_drop {m k : Nat} (h : Touched t l ls (xs.drop m) k) :
    Touched t l ls xs (m + k) := by
  rcases h with ⟨hl, x, hx, hfold⟩ | ⟨ht, j, x, rfl, hx, hfold⟩ | hseam
  · rw [List.getElem?_drop] at hx
    exact Or.inl ⟨hl, x, hx, hfold⟩
  · rw [List.getElem?_drop] at hx
    exact Or.inr (Or.inl ⟨ht, m + j, x, by omega, hx, hfold⟩)
  · exact Or.inr (Or.inr hseam.of_drop)

/-- A chain that begins and ends with a character touches the gaps at its seams only. -/
theorem touched_of_tight {k : Nat} (hl : l.1 = .tight) :
    Touched false l ls xs k ↔ Between xs (Paired (seams (l :: ls))) k := by
  simp [Touched, hl]

theorem char_mem_sweep (n : Nat) (t : Bool) (l : Link × Char) (ls : Chain) :
    .char l.2 ∈ sweep n t (l :: ls) := by
  simp [sweep, pattern]

/-- The gaps of what is left behind a chain of `m` characters: the gap after it is read as well if
`t`. -/
def behind (t : Bool) (m : Nat) (γ : Nat → Nat) : Nat → Nat :=
  if t then Function.update (fun k => γ (m + k)) 0 0 else fun k => γ (m + k)

theorem behind_succ (t : Bool) (m : Nat) (γ : Nat → Nat) (k : Nat) :
    behind t m γ (k + 1) = γ (m + (k + 1)) := by
  cases t <;> rfl

theorem read_sweep_of_fits (hx : Inked xs) (h : ls.Fits xs γ) :
    (sweep n t ls).read (spread xs γ) =
      some (strew (xs.take ls.length) (regap (ls.rules n) γ) ++ blanks (if t then n else 0),
        spread (xs.drop ls.length) (behind t ls.length γ)) := by
  rw [sweep, read_of_fits hx h]
  cases t with
  | false => rfl
  | true =>
    simp only [if_true, Pattern.read_gap_spread (hx.drop _)]
    simp [Pattern.read, behind]

theorem read_sweep_of_not_fits (hx : Inked xs) (hs : Sound t l ls) (h : ¬ Fits (l :: ls) xs γ) :
    (sweep n t (l :: ls)).read (spread xs γ) = none :=
  read_of_not_fits hx hs.char_ne h _

theorem fits_update_zero (hl : l.1 ≠ .tight) :
    Fits (l :: ls) xs (Function.update γ 0 0) ↔ Fits (l :: ls) xs γ := by
  cases xs with
  | nil => rfl
  | cons x xs => simp [Fits, hl]

theorem spread_eq_blanks_append (xs : List Char) (γ : Nat → Nat) :
    spread xs γ = blanks (γ 0) ++ spread xs (Function.update γ 0 0) := by
  cases xs with
  | nil => simp [blanks]
  | cons x xs => simp [spread_cons, blanks]

theorem sweep_of_tight (n : Nat) (t : Bool) (ls : Chain) (hl : l.1 = .tight) :
    sweep n t (l :: ls) = .char l.2 :: sweep n t ls := by
  simp [sweep, pattern, hl, Link.pieces]

theorem advance_of_fitted (n : Nat) (t : Bool) (ls : Chain) (hl : l.1 = .fitted) (c : Char)
    (s : List Char) :
    (sweep n t (l :: ls)).advance c s =
      if isBlank c then (c :: s.takeWhile isBlank, s.dropWhile isBlank) else ([c], s) := by
  simp [sweep, pattern, hl, Link.pieces, Pattern.advance]

section

variable {search : List Char → List Char}

theorem search_blanks_append (hsearch : Pattern.Seeks (sweep n t (l :: ls)) search)
    (hs : Sound t l ls) (hl : l.1 = .tight) (m : Nat) (s : List Char) :
    search (blanks m ++ s) = blanks m ++ search s := by
  have hblank : foldLetter ' ' = ' ' := by decide
  rw [sweep_of_tight n t ls hl] at hsearch
  apply hsearch.blanks_append
  rw [hblank]
  exact (hs.char_ne l List.mem_cons_self).symm

/-- Where a chain does not fit, the first character is passed. -/
theorem search_of_not_fits (hsearch : Pattern.Seeks (sweep n t (l :: ls)) search) {x : Char}
    (hx : Inked (x :: xs)) (hs : Sound t l ls)
    (h : ¬ Fits (l :: ls) (x :: xs) (Function.update γ 0 0)) :
    search (spread (x :: xs) γ) = blanks (γ 0) ++ x :: search (spread xs fun k => γ (k + 1)) := by
  have hclosed : spread (x :: xs) (Function.update γ 0 0) = x :: spread xs fun k => γ (k + 1) := by
    simp [spread_cons, blanks]
  have hnone := read_sweep_of_not_fits (n := n) hx hs h
  rw [hclosed] at hnone
  rcases hs.head with hl | ⟨hl, ht⟩
  · have hadvance (s : List Char) : (sweep n t (l :: ls)).advance x s = ([x], s) := by
      rw [sweep_of_tight n t ls hl]
      rfl
    rw [spread_eq_blanks_append, search_blanks_append hsearch hs hl, hclosed,
      hsearch.pass hnone, hadvance]
    rfl
  · -- The blanks are passed all at once, then the character.
    have hchar : search (x :: spread xs fun k => γ (k + 1)) =
        x :: search (spread xs fun k => γ (k + 1)) := by
      rw [hsearch.pass hnone, advance_of_fitted n t ls hl, hx x List.mem_cons_self]
      rfl
    rw [spread_cons, ← hchar]
    cases h0 : γ 0 with
    | zero => rfl
    | succ m =>
      have hopen : (sweep n t (l :: ls)).read (spread (x :: xs) γ) = none :=
        read_sweep_of_not_fits hx hs fun hf => h ((fits_update_zero (by simp [hl])).mpr hf)
      have hall : ∀ b ∈ blanks m, isBlank b = true := fun _ => isBlank_of_mem_blanks
      rw [spread_cons, h0, blanks, List.replicate_succ, List.cons_append, ← blanks] at hopen
      rw [blanks, List.replicate_succ, List.cons_append, ← blanks, hsearch.pass hopen,
        advance_of_fitted n t ls hl, if_pos isBlank_blank, List.takeWhile_append_of_pos hall,
        List.dropWhile_append_of_pos hall]
      simp [hx x List.mem_cons_self]

/-- There is no chain among blanks. -/
theorem search_spread_nil (hsearch : Pattern.Seeks (sweep n t (l :: ls)) search) (hs : Sound t l ls)
    (γ : Nat → Nat) : search (spread [] γ) = spread [] γ := by
  rcases hs.head with hl | ⟨hl, ht⟩
  · have happend := search_blanks_append hsearch hs hl (γ 0) []
    rw [List.append_nil] at happend
    rw [spread_nil, happend, hsearch.nil, List.append_nil]
  · cases h0 : γ 0 with
    | zero => simpa [h0, blanks] using hsearch.nil
    | succ m =>
      have hnone : (sweep n t (l :: ls)).read (spread [] γ) = none :=
        read_sweep_of_not_fits (by simp [Inked]) hs not_false
      rw [spread_nil, h0, blanks, List.replicate_succ, ← blanks] at hnone ⊢
      rw [hsearch.pass hnone, advance_of_fitted n t ls hl, if_pos isBlank_blank]
      simp [blanks, isBlank, hsearch.nil]

end

/-- A chain that fits is replaced, and the search goes on behind it. -/
theorem everywhere_of_fits (hx : Inked xs) (hs : Sound t l ls)
    (h : Fits (l :: ls) xs (Function.update γ 0 0)) :
    (sweep n t (l :: ls)).everywhere (spread xs γ) =
      strew (xs.take (ls.length + 1))
        (regap (rules n (l :: ls)) γ) ++ blanks (if t then n else 0) ++
        (sweep n t (l :: ls)).everywhere
          (spread (xs.drop (ls.length + 1)) (behind t (ls.length + 1) γ)) := by
  have hmem := char_mem_sweep n t l ls
  rcases hs.head with hl | ⟨hl, ht⟩
  · have hstrew : strew (xs.take (ls.length + 1)) (regap (rules n (l :: ls)) γ) = blanks (γ 0) ++
        strew (xs.take (ls.length + 1)) (regap (rules n (l :: ls)) (Function.update γ 0 0)) := by
      cases xs with
      | nil => exact h.elim
      | cons x xs =>
        simp [strew, regap, rules, hl, Link.rule, GapRule.fit, blanks]
    have hbehind : behind t (ls.length + 1) (Function.update γ 0 0) =
        behind t (ls.length + 1) γ := by
      simp [behind]
    rw [spread_eq_blanks_append, search_blanks_append (Pattern.seeks_everywhere hmem) hs hl,
      Pattern.everywhere_of_read hmem (read_sweep_of_fits hx h), hstrew, List.length_cons, hbehind]
    simp
  · have hopen := (fits_update_zero (by simp [hl])).mp h
    rw [Pattern.everywhere_of_read hmem (read_sweep_of_fits hx hopen), List.length_cons]

/-! ## The rules that replacing a chain applies -/

theorem Fits.getElem? (h : ls.Fits xs γ) {j : Nat} (hl : ls[j]? = some l) :
    ∃ x, xs[j]? = some x ∧ foldLetter x = l.2 := by
  induction ls generalizing xs γ j with
  | nil => simp at hl
  | cons l' ls ih =>
    cases xs with
    | nil => exact h.elim
    | cons x xs =>
      obtain ⟨_, hfold, hrest⟩ := h
      cases j with
      | zero =>
        obtain rfl : l' = l := by simpa using hl
        exact ⟨x, rfl, hfold⟩
      | succ j => simpa using ih hrest (by simpa using hl)

theorem mem_seams {l' : Link × Char} {j : Nat} (hl : ls[j]? = some l) (hl' : ls[j + 1]? = some l')
    (hloose : l'.1 ≠ .tight) : (l.2, l'.2) ∈ seams ls := by
  induction ls generalizing j with
  | nil => simp at hl
  | cons a ls ih =>
    cases ls with
    | nil => simp at hl'
    | cons b ls =>
      cases j with
      | zero =>
        obtain rfl : a = l := by simpa using hl
        obtain rfl : b = l' := by simpa using hl'
        rw [seams, if_neg hloose]
        exact List.mem_cons_self
      | succ j =>
        have hmem := ih (j := j) (by simpa using hl) (by simpa using hl')
        rw [seams]
        split
        · exact hmem
        · exact List.mem_cons_of_mem _ hmem

/-- The gaps that a chain at the start sets are touched. -/
theorem Fits.touched (h : Fits (l :: ls) xs γ) (n k : Nat) :
    rules n (l :: ls) k = .keep ∨ rules n (l :: ls) k = .exactly n ∧ Touched t l ls xs k := by
  have hfitted : rules n (l :: ls) k = .keep ∨
      rules n (l :: ls) k = .exactly n ∧ ∃ l', (l :: ls)[k]? = some l' ∧ l'.1 = .fitted := by
    rw [rules]
    split
    · rename_i l' hl'
      cases hlink : l'.1 with
      | fitted => exact Or.inr ⟨rfl, l', hl', hlink⟩
      | tight => exact Or.inl rfl
      | loose => exact Or.inl rfl
    · exact Or.inl rfl
  refine hfitted.imp_right ?_
  rintro ⟨hrule, l', hl', hlink⟩
  refine ⟨hrule, ?_⟩
  obtain ⟨y, hy, hfold⟩ := h.getElem? hl'
  cases k with
  | zero =>
    obtain rfl : l = l' := by simpa using hl'
    exact Or.inl ⟨hlink, y, hy, hfold⟩
  | succ j =>
    have hj : j < (l :: ls).length := by
      have := (List.getElem?_eq_some_iff.mp hl').1
      omega
    have hprev : (l :: ls)[j]? = some (l :: ls)[j] := List.getElem?_eq_getElem hj
    obtain ⟨x, hx, hfold'⟩ := h.getElem? hprev
    refine Or.inr (Or.inr ⟨j, x, y, rfl, hx, hy, ?_⟩)
    rw [Paired, hfold, hfold']
    exact mem_seams hprev hl' (by simp [hlink])

/-- A text put together from its beginning, a gap and its end. -/
theorem strew_append_spread {m b : Nat} {δ ε ζ : Nat → Nat} (hm : m ≤ xs.length)
    (hfront : ∀ k < m, δ k = ζ k) (hgap : b + ε 0 = ζ m)
    (hback : ∀ k, ε (k + 1) = ζ (m + (k + 1))) :
    strew (xs.take m) δ ++ blanks b ++ spread (xs.drop m) ε = spread xs ζ := by
  have hlen : (xs.take m).length = m := List.length_take_of_le hm
  have hstrew : strew (xs.take m) δ = strew (xs.take m) ζ := by
    apply strew_congr
    rw [hlen]
    exact hfront
  have hspread : blanks b ++ spread (xs.drop m) ε = spread (xs.drop m) fun k => ζ (m + k) := by
    have hrest : Function.update (fun k => ζ (m + k)) 0 0 = Function.update ε 0 0 := by
      funext k
      cases k with
      | zero => rfl
      | succ k => exact (hback k).symm
    rw [spread_eq_blanks_append _ ε, spread_eq_blanks_append _ fun k => ζ (m + k),
      hrest, Nat.add_zero, ← hgap, blanks, blanks, blanks, ← List.append_assoc,
      List.replicate_append_replicate]
  rw [List.append_assoc, hstrew, hspread]
  conv_rhs => rw [← List.take_append_drop m xs, spread_append, hlen]

/-- Replacing a chain everywhere applies the rules `σ` to all gaps that agree with `γ₀` at the ties
of the chain. -/
structure Resets (n : Nat) (t : Bool) (l : Link × Char) (ls : Chain) (xs : List Char)
    (γ₀ : Nat → Nat) (σ : Nat → GapRule) : Prop where
  touched : ∀ k, σ k = .keep ∨ σ k = .exactly n ∧ Touched t l ls xs k
  head : l.1 = .tight → σ 0 = .keep
  everywhere_eq : ∀ γ, Alike (Between xs (Paired (ties (l :: ls)))) γ₀ γ →
    (sweep n t (l :: ls)).everywhere (spread xs γ) = spread xs (regap σ γ)

section

variable {γ₀ : Nat → Nat} {σ : Nat → GapRule}

/-- The rules of a chain at the start, that of the gap after it, and those for what is behind it. -/
def beginning (n : Nat) (t : Bool) (ls : Chain) (σ : Nat → GapRule) (k : Nat) : GapRule :=
  if k < ls.length then rules n ls k
  else if t = true ∧ k = ls.length then .exactly n else σ (k - ls.length)

theorem Fits.touched_beginning (hf : Fits (l :: ls) xs γ)
    (h : ∀ k, σ k = .keep ∨ σ k = .exactly n ∧ Touched t l ls (xs.drop (ls.length + 1)) k)
    (k : Nat) :
    beginning n t (l :: ls) σ k = .keep ∨
      beginning n t (l :: ls) σ k = .exactly n ∧ Touched t l ls xs k := by
  rw [beginning, List.length_cons]
  split
  · exact hf.touched n k
  · split
    · rename_i _ hlast
      obtain ⟨ht, rfl⟩ := hlast
      have hl' : (l :: ls)[ls.length]? = some ((l :: ls)[ls.length]) :=
        List.getElem?_eq_getElem (by simp)
      obtain ⟨y, hy, hfold⟩ := hf.getElem? hl'
      refine Or.inr ⟨rfl, Or.inr (Or.inl ⟨ht, ls.length, y, rfl, hy, _, ?_, hfold⟩)⟩
      rw [List.getLast?_eq_getElem?]
      exact hl'
    · have hsplit : k = ls.length + 1 + (k - (ls.length + 1)) := by omega
      refine (h (k - (ls.length + 1))).imp_right fun h => ⟨h.1, ?_⟩
      rw [hsplit]
      exact h.2.of_drop

theorem Resets.of_fits (hs : Sound t l ls) (hx : Inked xs)
    (hf : Fits (l :: ls) xs (Function.update γ₀ 0 0))
    (h : Resets n t l ls (xs.drop (ls.length + 1)) (behind t (ls.length + 1) γ₀) σ) :
    Resets n t l ls xs γ₀ (beginning n t (l :: ls) σ) := by
  refine ⟨hf.touched_beginning h.touched, fun hl => ?_, fun γ hγ => ?_⟩
  · simp [beginning, rules, hl, Link.rule]
  · have hfγ : Fits (l :: ls) xs (Function.update γ 0 0) :=
      hf.congr (fun _ _ _ _ _ _ _ _ _ => rfl) hγ.update_zero
    have hrest := h.everywhere_eq (behind t (ls.length + 1) γ) (by
      rintro k hk
      have hγk := hγ _ hk.of_drop
      obtain ⟨j, _, _, rfl, _⟩ := hk
      rwa [behind_succ, behind_succ])
    rw [everywhere_of_fits hx hs hfγ, hrest]
    refine strew_append_spread hf.length_le ?_ ?_ ?_
    · intro k hk
      simp [regap, beginning, hk]
    · -- The gap after the chain is set by it, and then left alone by what is found behind it.
      cases t with
      | false => simp [regap, beginning, behind]
      | true =>
        have hl : l.1 = .tight := by simpa using hs.head
        simp [regap, beginning, behind, h.head hl, GapRule.fit]
    · intro k
      have hge : ¬ ls.length + 1 + (k + 1) < ls.length + 1 := by omega
      simp [regap, beginning, behind_succ, hge]

theorem Resets.of_not_fits {x : Char} (hs : Sound t l ls) (hx : Inked (x :: xs))
    (hf : ¬ Fits (l :: ls) (x :: xs) (Function.update γ₀ 0 0))
    (h : Resets n t l ls xs (fun k => γ₀ (k + 1)) σ) :
    Resets n t l ls (x :: xs) γ₀ (passing σ) := by
  refine ⟨fun k => ?_, fun _ => rfl, fun γ hγ => ?_⟩
  · cases k with
    | zero => exact Or.inl rfl
    | succ k =>
      refine (h.touched k).imp_right fun htouched => ⟨htouched.1, ?_⟩
      rw [Nat.add_comm]
      exact Touched.of_drop htouched.2
  · have hnot : ¬ Fits (l :: ls) (x :: xs) (Function.update γ 0 0) := by
      intro hfγ
      exact hf (hfγ.congr (fun _ _ _ _ _ _ _ _ _ => rfl) hγ.symm.update_zero)
    have hrest := h.everywhere_eq (fun k => γ (k + 1)) (by
      intro k hk
      have hγk := hγ (1 + k) (Between.of_drop hk)
      rwa [Nat.add_comm] at hγk)
    rw [search_of_not_fits (Pattern.seeks_everywhere (char_mem_sweep n t l ls)) hx hs hnot, hrest,
      spread_passing]

theorem beginning_eq_keep {σ' : Nat → GapRule} (hσ : ∀ k, σ k = .keep → σ' k = .keep) (n' k : Nat)
    (h : beginning n t ls σ k = .keep) : beginning n' t ls σ' k = .keep := by
  rw [beginning] at h ⊢
  by_cases hk : k < ls.length
  · rw [if_pos hk] at h ⊢
    rw [rules] at h ⊢
    cases hl : ls[k]? with
    | none => rfl
    | some l => cases hlink : l.1 <;> simp_all [Link.rule]
  · rw [if_neg hk] at h ⊢
    by_cases hlast : t = true ∧ k = ls.length
    · rw [if_pos hlast] at h
      cases h
    · rw [if_neg hlast] at h ⊢
      exact hσ _ h

/-- The gaps that are set depend on the text, not on the width to which they are set: there are
rules for every width, and they keep the same gaps. -/
theorem exists_resets (hs : Sound t l ls) (hx : Inked xs) (γ₀ : Nat → Nat) :
    ∃ ρ : Nat → Nat → GapRule, (∀ n, Resets n t l ls xs γ₀ (ρ n)) ∧
      ∀ n n' k, ρ n k = .keep → ρ n' k = .keep := by
  -- Behind a chain the search goes on with a text that is shorter by more than one character.
  induction hlen : xs.length using Nat.strongRecOn generalizing xs γ₀ with
  | ind len ih =>
    cases xs with
    | nil =>
      refine ⟨fun _ _ => .keep, fun n => ⟨fun _ => Or.inl rfl, fun _ => rfl, fun γ _ => ?_⟩,
        fun _ _ _ => id⟩
      exact search_spread_nil (Pattern.seeks_everywhere (char_mem_sweep n t l ls)) hs γ
    | cons x xs =>
      rw [List.length_cons] at hlen
      by_cases hf : Fits (l :: ls) (x :: xs) (Function.update γ₀ 0 0)
      · have hlt : ((x :: xs).drop (ls.length + 1)).length < len := by
          rw [List.length_drop, List.length_cons]
          omega
        obtain ⟨ρ, hρ, hkeep⟩ := ih _ hlt (hx.drop _) (behind t (ls.length + 1) γ₀) rfl
        exact ⟨fun n => beginning n t (l :: ls) (ρ n), fun n => (hρ n).of_fits hs hx hf,
          fun n n' k => beginning_eq_keep (hkeep n n') n' k⟩
      · obtain ⟨ρ, hρ, hkeep⟩ := ih xs.length (by omega) hx.tail (fun k => γ₀ (k + 1)) rfl
        refine ⟨fun n => passing (ρ n), fun n => (hρ n).of_not_fits hs hx hf, fun n n' k h => ?_⟩
        cases k with
        | zero => rfl
        | succ k => exact hkeep n n' k h

end

/-- Replacing a chain everywhere is steady if its ties are frozen and it touches no frozen gap. -/
theorem steady_everywhere {F : Nat → Prop} {γ₀ : Nat → Nat} (hs : Sound t l ls) (hx : Inked xs)
    (hties : ∀ k, Between xs (Paired (ties (l :: ls))) k → F k)
    (hfree : ∀ k, F k → ¬ Touched t l ls xs k) :
    Steady F γ₀ xs (sweep n t (l :: ls)).everywhere := by
  obtain ⟨ρ, hρ, _⟩ := exists_resets hs hx γ₀
  refine Steady.of_keep (ρ n) ?_ fun γ hγ => (hρ n).everywhere_eq γ fun k hk => hγ k (hties k hk)
  intro k hk
  exact ((hρ n).touched k).resolve_right fun h => hfree k hk h.2

/-- Of two replacements of a chain that touches no gap at its own ties the last one counts. -/
theorem everywhere_everywhere {γ : Nat → Nat} (hs : Sound t l ls) (hx : Inked xs)
    (hfree : ∀ k, Between xs (Paired (ties (l :: ls))) k → ¬ Touched t l ls xs k) (n n' : Nat) :
    (sweep n' t (l :: ls)).everywhere ((sweep n t (l :: ls)).everywhere (spread xs γ)) =
      (sweep n' t (l :: ls)).everywhere (spread xs γ) := by
  obtain ⟨ρ, hρ, hkeep⟩ := exists_resets hs hx γ
  have halike : Alike (Between xs (Paired (ties (l :: ls)))) γ (regap (ρ n) γ) := by
    intro k hk
    rw [regap, ((hρ n).touched k).resolve_right fun h => hfree k hk h.2]
    rfl
  have hlast : regap (ρ n') (regap (ρ n) γ) = regap (ρ n') γ := by
    funext k
    rw [regap, regap, regap]
    rcases (hρ n').touched k with h | ⟨h, _⟩
    · rw [hkeep n' n k h]
      rfl
    · rw [h]
      rfl
  rw [(hρ n).everywhere_eq γ fun _ _ => Iff.rfl, (hρ n').everywhere_eq _ halike, hlast,
    (hρ n').everywhere_eq γ fun _ _ => Iff.rfl]

/-- Replacing a chain without ties everywhere, so that its gaps are not empty, is steady if no
frozen gap is empty. -/
theorem steady_everywhere_of_pos {F : Nat → Prop} {γ₀ : Nat → Nat}
    (hs : Sound t l ls) (hx : Inked xs)
    (hties : ties (l :: ls) = []) (hn : 0 < n) (hF : ∀ k, F k → γ₀ k ≠ 0) :
    Steady F γ₀ xs (sweep n t (l :: ls)).everywhere := by
  obtain ⟨ρ, hρ, _⟩ := exists_resets hs hx γ₀
  refine ⟨ρ n, fun γ hγ => ⟨(hρ n).everywhere_eq γ ?_, fun k hk => ?_⟩⟩
  · rintro k ⟨_, _, _, _, _, _, hpair⟩
    simp [Paired, hties] at hpair
  · rw [regap]
    rcases (hρ n).touched k with hkeep | ⟨hset, _⟩
    · rw [hkeep]
      exact hγ k hk
    · rw [hset, GapRule.fit]
      exact iff_of_false (hF k hk) (by omega)

end Chain

end FortranLayout.Text
