import FortranLayout.Proofs.Spacing.Chain
import FortranLayout.Spacing.Pass

/-!
# Setting the blanks of keywords is steady

The words of a keyword are a chain whose ties are inside the words. The gaps between the words of an
adjacent keyword are set, and no two letters at such a seam are neighbours inside one of the words.
After a statement keyword the gap is set, unless it is empty and a word character follows.
-/

namespace FortranLayout

namespace Text

/-- Letters are word characters, in any of their forms. -/
theorem isWordChar_of_isLetter {c : Char} (h : isLetter c = true) : isWordChar c = true := by
  rw [isLetter, foldLetter] at h
  split at h
  · rename_i hc
    subst hc
    decide +kernel
  · split at h
    · rename_i hc
      subst hc
      decide +kernel
    · have halpha : c.isAlpha = true ∧ c.toNat < 0x80 := by
        unfold Char.toLower at h
        split at h
        · rename_i hrange
          have hle : c.val.toNat ≤ 90 := hrange.2
          have hupper : c.isUpper = true := decide_eq_true hrange
          exact ⟨Bool.or_eq_true_iff.mpr (Or.inl hupper), Nat.lt_of_le_of_lt hle (by decide)⟩
        · have hle : c.val.toNat ≤ 122 := of_decide_eq_true (Bool.and_eq_true_iff.mp h).2
          exact ⟨Bool.or_eq_true_iff.mpr (Or.inr h), Nat.lt_of_le_of_lt hle (by decide)⟩
      rw [isWordChar, if_pos halpha.2, Char.isAlphanum, halpha.1]
      rfl

/-- The letters of a word, of which the first has the link `l`. -/
def spell (l : Link) (word : String) : Chain :=
  match word.toList with
  | [] => []
  | c :: cs => (l, c) :: cs.map (Prod.mk .tight)

theorem Pattern.read_wordEnd (q : Pattern) (s : List Char) :
    Pattern.read (.wordEnd :: q) s = if s.head?.any isWordChar then none else q.read s := by
  cases s with
  | nil => cases hq : q.read [] <;> simp [Pattern.read, Piece.read, hq]
  | cons x s =>
    by_cases hw : isWordChar x = true
    · simp [Pattern.read, Piece.read, hw]
    · cases hq : q.read (x :: s) <;> simp [Pattern.read, Piece.read, hw, hq]

/-- A text begins with a word character if its first gap is empty and its first character is one. -/
theorem any_head?_spread (xs : List Char) (γ : Nat → Nat) :
    (spread xs γ).head?.any isWordChar = (decide (γ 0 = 0) && xs.head?.any isWordChar) := by
  have hblank : isWordChar ' ' = false := by decide
  cases h0 : γ 0 with
  | zero =>
    cases xs with
    | nil => simp [h0, blanks]
    | cons x xs => simp [spread_cons, h0, blanks]
  | succ m =>
    cases xs with
    | nil => simp [h0, blanks, List.replicate_succ, hblank]
    | cons x xs => simp [spread_cons, h0, blanks, List.replicate_succ, hblank]

namespace Chain

variable {ls ls' : Chain} {n : Nat}

theorem pattern_append (n : Nat) (ls ls' : Chain) :
    Chain.pattern n (ls ++ ls') = Chain.pattern n ls ++ Chain.pattern n ls' := by
  induction ls with
  | nil => rfl
  | cons l ls ih => simp [pattern, ih]

theorem pattern_spell (l : Link) {word : String} (hw : word.toList ≠ []) :
    Chain.pattern n (spell l word) = l.pieces n ++ Pattern.spelling word := by
  have htight (cs : List Char) : Chain.pattern n (cs.map (Prod.mk .tight)) = cs.map .char := by
    induction cs with
    | nil => rfl
    | cons c cs ih => simp [pattern, Link.pieces, ih]
  rw [spell, Pattern.spelling]
  cases h : word.toList with
  | nil => exact absurd h hw
  | cons c cs => simp [pattern, htight]

/-- Words spelled out one after the other, each after the first with the link `l`. -/
theorem pattern_words (l : Link) (first : Link) {word : String} {words : List String}
    (hw : ∀ w ∈ word :: words, w.toList ≠ []) :
    Chain.pattern n (spell first word ++ words.flatMap (spell l)) =
      first.pieces n ++ (l.pieces n).intercalate ((word :: words).map Pattern.spelling) := by
  induction words generalizing word first with
  | nil => simp [pattern_spell first (hw word List.mem_cons_self)]
  | cons word' words ih =>
    obtain ⟨hword, hwords⟩ := List.forall_mem_cons.mp hw
    rw [List.flatMap_cons, pattern_append, ih l hwords, pattern_spell first hword]
    simp [List.intercalate]

/-! ## A chain at the start of a text -/

section

variable {F : Nat → Prop} {γ γ₀ : Nat → Nat} {xs : List Char}

theorem rules_of_kept (hkept : ∀ l ∈ ls, l.1 ≠ .fitted) (k : Nat) : ls.rules n k = .keep := by
  rw [rules]
  split
  · rename_i l hl
    have hne := hkept l (List.mem_of_getElem? hl)
    cases hlink : l.1 with
    | tight => rfl
    | loose => rfl
    | fitted => exact absurd hlink hne
  · rfl

/-- A chain that is found at the start, and the end of a word after it. -/
theorem atStart_of_fits (hx : Inked xs) (hkept : ∀ l ∈ ls, l.1 ≠ .fitted) (hf : ls.Fits xs γ) :
    Pattern.atStart (Chain.pattern n ls ++ [.wordEnd, .gap 0 (some n)]) (spread xs γ) =
      if γ ls.length = 0 ∧ xs[ls.length]?.any isWordChar = true then spread xs γ
      else spread xs (Function.update γ ls.length n) := by
  have hrest : Pattern.read [.wordEnd, .gap 0 (some n)]
        (spread (xs.drop ls.length) fun k => γ (ls.length + k)) =
      if γ ls.length = 0 ∧ xs[ls.length]?.any isWordChar = true then none
      else some (blanks n, spread (xs.drop ls.length)
        (Function.update (fun k => γ (ls.length + k)) 0 0)) := by
    rw [Pattern.read_wordEnd, any_head?_spread, Pattern.read_gap_spread (hx.drop _),
      List.head?_drop, Nat.add_zero]
    simp [Pattern.read]
  rw [Pattern.atStart, read_of_fits hx hf, hrest]
  by_cases h : γ ls.length = 0 ∧ xs[ls.length]?.any isWordChar = true
  · rw [if_pos h, if_pos h]
    rfl
  · rw [if_neg h, if_neg h]
    refine strew_append_spread hf.length_le ?_ ?_ ?_
    · intro k hk
      rw [regap, rules_of_kept hkept, Function.update_of_ne (by omega)]
      rfl
    · simp
    · intro k
      simp

/-- Setting the gap after a chain at the start of a text, where it is the end of a word. -/
theorem steady_atStart (hx : Inked xs) (hc : ∀ l ∈ ls, l.2 ≠ ' ') (hkept : ∀ l ∈ ls, l.1 ≠ .fitted)
    (hhead : ∀ l ∈ ls.head?, l.1 ≠ .tight) (hties : ∀ k, Between xs (Paired ls.ties) k → F k)
    (hend : ls.Fits xs γ₀ → F ls.length → 0 < n ∧ xs[ls.length]?.any isWordChar = true) :
    Steady F γ₀ xs (Pattern.atStart (Chain.pattern n ls ++ [.wordEnd, .gap 0 (some n)])) := by
  have hcongr {γ γ' : Nat → Nat} (ha : Alike F γ γ') (hf : ls.Fits xs γ) : ls.Fits xs γ' := by
    refine hf.congr ?_ fun k hk => ha k (hties k hk)
    rintro l ls' x xs' rfl _ _ htight
    exact absurd htight (hhead l rfl)
  by_cases hf : ls.Fits xs γ₀
  · -- One gap is set: always, or unless it is empty.
    by_cases hword : xs[ls.length]?.any isWordChar = true
    · refine ⟨onlyAt ls.length (.refit n), fun γ hγ => ⟨?_, fun k hk => ?_⟩⟩
      · rw [atStart_of_fits hx hkept (hcongr hγ hf), regap_onlyAt]
        by_cases h0 : γ ls.length = 0
        · have hsame := Function.update_eq_self ls.length γ
          rw [if_pos ⟨h0, hword⟩, GapRule.fit, if_pos h0, ← h0, hsame]
        · rw [if_neg fun h => h0 h.1, GapRule.fit, if_neg h0]
      · rw [hγ k hk, regap_onlyAt]
        by_cases hkl : k = ls.length
        · have hn := (hend hf (hkl ▸ hk)).1
          subst hkl
          rw [Function.update_self, GapRule.fit]
          split <;> omega
        · rw [Function.update_of_ne hkl]
    · refine Steady.of_keep (onlyAt ls.length (.exactly n)) (fun k hk => ?_) fun γ hγ => ?_
      · by_cases hkl : k = ls.length
        · subst hkl
          exact absurd (hend hf hk).2 hword
        · rw [onlyAt, Function.update_of_ne hkl]
      · rw [atStart_of_fits hx hkept (hcongr hγ hf), if_neg fun h => hword h.2, regap_onlyAt,
          GapRule.fit]
  · refine Steady.id.congr fun γ hγ => ?_
    rw [Pattern.atStart, read_of_not_fits hx hc fun hfγ => hf (hcongr hγ.symm hfγ)]

end

end Chain

end Text

open Text (Chain spell Steady Inked Between Paired foldLetter isLetter isWordChar)

/-! ## The tables -/

/-- The kind of the nodes in question. -/
def KeywordTarget.kindOf : KeywordTarget → Kind
  | kind k => k
  | intrinsicTypeName => .typeName

theorem SpacingRules.kind_of_isTarget {f : Forest} {target : KeywordTarget} {i : NodeId}
    (h : isTarget f target i = true) : f.kind i = target.kindOf := by
  cases target with
  | kind k => simpa [isTarget, KeywordTarget.kindOf] using h
  | intrinsicTypeName =>
    simp only [isTarget, Bool.and_eq_true, beq_iff_eq] at h
    exact h.1

section

variable {F : Nat → Prop} {γ₀ : Nat → Nat} {xs : List Char} {n : Nat} {pairs : List (Char × Char)}

namespace AdjacentKeyword

/-- The letters of the words, with gaps that are set between the words. -/
def links (k : AdjacentKeyword) : Chain :=
  match k.words with
  | [] => []
  | word :: words => spell .tight word ++ words.flatMap (spell .fitted)

theorem words_ne (k : AdjacentKeyword) (hk : k ∈ all) :
    k.words ≠ [] ∧ ∀ w ∈ k.words, w.toList ≠ [] := by
  revert k
  decide

theorem pattern_eq {k : AdjacentKeyword} (hk : k ∈ all) (n : Nat) :
    k.pattern n = Chain.pattern n k.links := by
  obtain ⟨hne, hwords⟩ := words_ne k hk
  rw [pattern, links]
  cases h : k.words with
  | nil => exact absurd h hne
  | cons word words =>
    rw [h] at hwords
    exact (Chain.pattern_words .fitted .tight hwords).symm

theorem links_sound (k : AdjacentKeyword) (hk : k ∈ all) :
    (∃ l ∈ k.links.head?, l.1 = .tight) ∧ ∀ l ∈ k.links, l.2 ≠ ' ' := by
  revert k
  decide

/-- An entry is applied by replacing the chain of its letters everywhere. -/
theorem exists_sweep {k : AdjacentKeyword} (hk : k ∈ all) :
    ∃ l ls, k.links = l :: ls ∧ l.1 = .tight ∧ Chain.Sound false l ls ∧
      ∀ n, k.apply n = (Chain.sweep n false (l :: ls)).everywhere := by
  obtain ⟨⟨l, hl, htight⟩, hchars⟩ := links_sound k hk
  obtain ⟨ls, hls⟩ : ∃ ls, k.links = l :: ls := by
    cases h : k.links with
    | nil => simp [h] at hl
    | cons l' ls => exact ⟨ls, by simpa [h] using hl⟩
  rw [hls] at hchars
  refine ⟨l, ls, hls, htight, ⟨Or.inl htight, hchars⟩, fun n => ?_⟩
  funext s
  rw [apply, pattern_eq hk, hls, Chain.sweep, if_neg (by decide), List.append_nil]

/-- Joining or parting the words is steady if the neighbours inside the words are frozen pairs and
those at the seams are not. -/
theorem steady_apply {k : AdjacentKeyword} (hk : k ∈ all) (hx : Inked xs)
    (hties : ∀ p ∈ k.links.ties, p ∈ pairs) (hseams : ∀ p ∈ k.links.seams, p ∉ pairs) (n : Nat) :
    Steady (Between xs (Paired pairs)) γ₀ xs (k.apply n) := by
  obtain ⟨l, ls, hls, htight, hsound, happly⟩ := exists_sweep hk
  rw [hls] at hties hseams
  rw [happly]
  refine Chain.steady_everywhere hsound hx ?_ fun j hj => ?_
  · rintro j ⟨m, x, y, hm, hxm, hym, hpair⟩
    exact ⟨m, x, y, hm, hxm, hym, hties _ hpair⟩
  · rw [Chain.touched_of_tight htight]
    exact hj.not_between hseams

end AdjacentKeyword

namespace AfterKeyword

/-- The letters of the words, with gaps that are kept before the words. -/
def links (k : AfterKeyword) : Chain := k.words.flatMap (spell .loose)

theorem words_ne (k : AfterKeyword) (hk : k ∈ all) :
    k.words ≠ [] ∧ ∀ w ∈ k.words, w.toList ≠ [] := by
  revert k
  decide

theorem pattern_eq {k : AfterKeyword} (hk : k ∈ all) (n : Nat) :
    k.pattern n = Chain.pattern n k.links ++ [.wordEnd, .gap 0 (some n)] := by
  obtain ⟨hne, hwords⟩ := words_ne k hk
  rw [pattern, links]
  cases h : k.words with
  | nil => exact absurd h hne
  | cons word words =>
    rw [h] at hwords
    rw [List.flatMap_cons, Chain.pattern_words .loose .loose hwords]
    rfl

theorem links_sound (k : AfterKeyword) (hk : k ∈ all) :
    (∀ l ∈ k.links, l.2 ≠ ' ') ∧ (∀ l ∈ k.links, l.1 ≠ .fitted) ∧ ∀ l ∈ k.links.head?,
      l.1 ≠ .tight := by
  revert k
  decide

/-- Setting the gap after a keyword is steady if the neighbours inside its words are frozen pairs,
and the gap is not made empty or no frozen pair begins with the last letter. -/
theorem steady_apply {k : AfterKeyword} (hk : k ∈ all) (hx : Inked xs)
    (hties : ∀ p ∈ k.links.ties, p ∈ pairs) (hlower : ∀ p ∈ pairs, p.2.isLower = true)
    (hend : 0 < n ∨ ∀ l ∈ k.links.getLast?, ∀ p ∈ pairs, p.1 ≠ l.2) :
    Steady (Between xs (Paired pairs)) γ₀ xs (k.apply n) := by
  obtain ⟨hchars, hkept, hhead⟩ := links_sound k hk
  have happly :
      k.apply n =
        Text.Pattern.atStart (Chain.pattern n k.links ++ [.wordEnd, .gap 0 (some n)]) := by
    funext s
    rw [apply, pattern_eq hk]
  rw [happly]
  refine Chain.steady_atStart hx hchars hkept hhead ?_ ?_
  · rintro j ⟨m, x, y, hm, hxm, hym, hpair⟩
    exact ⟨m, x, y, hm, hxm, hym, hties _ hpair⟩
  · rintro hfits ⟨m, x, y, hm, hxm, hym, hpair⟩
    have hword : isWordChar y = true := Text.isWordChar_of_isLetter (hlower _ hpair)
    refine ⟨?_, by simp [hm, hym, hword]⟩
    rcases hend with hn | hlast
    · exact hn
    · obtain ⟨l, hl⟩ : ∃ l, k.links[m]? = some l :=
        ⟨_, List.getElem?_eq_getElem (show m < k.links.length by omega)⟩
      obtain ⟨x', hxm', hfold⟩ := hfits.getElem? hl
      obtain rfl : x = x' := Option.some.inj (hxm.symm.trans hxm')
      have hgetLast : k.links.getLast? = some l := by
        rw [List.getLast?_eq_getElem?, hm]
        exact hl
      exact absurd hfold (hlast l hgetLast _ hpair)

end AfterKeyword

end

/-! ## The frozen pairs of a node -/

/-- The pairs of letters that are neighbours in the keywords of a node. -/
def keywordPairs (f : Forest) (i : NodeId) : List (Char × Char) :=
  (AdjacentKeyword.all.filter fun k => SpacingRules.isTarget f k.target i).flatMap
    (fun k => k.links.ties) ++
    match AfterKeyword.forKind? (f.kind i) with
    | some k => k.links.ties
    | none => []

section

variable {f : Forest} {i : NodeId} {p : Char × Char}

theorem AfterKeyword.of_forKind? {k : AfterKeyword} (h : forKind? (f.kind i) = some k) :
    k ∈ all ∧ k.kind = f.kind i :=
  ⟨List.mem_of_find?_eq_some h, by simpa using List.find?_some h⟩

theorem mem_keywordPairs : p ∈ keywordPairs f i ↔
    (∃ k ∈ AdjacentKeyword.all, SpacingRules.isTarget f k.target i = true ∧ p ∈ k.links.ties) ∨
      ∃ k, AfterKeyword.forKind? (f.kind i) = some k ∧ p ∈ k.links.ties := by
  rw [keywordPairs, List.mem_append]
  refine or_congr ?_ ?_
  · simp [List.mem_flatMap, List.mem_filter, and_assoc]
  · cases AfterKeyword.forKind? (f.kind i) <;> simp

/-- No two entries of the adjacent keywords speak of nodes of one kind. -/
theorem AdjacentKeyword.eq_of_kindOf (k : AdjacentKeyword) (hk : k ∈ all) (k' : AdjacentKeyword)
    (hk' : k' ∈ all) (h : k.target.kindOf = k'.target.kindOf) : k = k' := by
  revert k k'
  decide

theorem AdjacentKeyword.seams_not_mem_ties (k : AdjacentKeyword) (hk : k ∈ all) :
    ∀ p ∈ k.links.seams, p ∉ k.links.ties := by
  revert k
  decide

/-- Where a kind of node has an entry in both tables, the two agree. -/
theorem AfterKeyword.agrees_adjacent (e : AfterKeyword) (he : e ∈ all) (k : AdjacentKeyword)
    (hk : k ∈ AdjacentKeyword.all) (h : k.target.kindOf = e.kind) :
    0 < e.least ∧ ∀ p ∈ k.links.seams, p ∉ e.links.ties := by
  revert e k
  decide

theorem AfterKeyword.last_of_least (e : AfterKeyword) (he : e ∈ all) (h : e.least = 0) :
    ∀ l ∈ e.links.getLast?, ∀ p ∈ e.links.ties, p.1 ≠ l.2 := by
  revert e
  decide

theorem isLower_of_mem_keywordPairs (h : p ∈ keywordPairs f i) :
    p.1.isLower = true ∧ p.2.isLower = true := by
  have hadjacent : ∀ k ∈ AdjacentKeyword.all, ∀ p ∈ k.links.ties,
      p.1.isLower = true ∧ p.2.isLower = true := by
    decide
  have hafter : ∀ k ∈ AfterKeyword.all, ∀ p ∈ k.links.ties,
      p.1.isLower = true ∧ p.2.isLower = true := by
    decide
  rcases mem_keywordPairs.mp h with ⟨k, hk, _, hp⟩ | ⟨k, hk, hp⟩
  · exact hadjacent k hk p hp
  · exact hafter k (AfterKeyword.of_forKind? hk).1 p hp

theorem AdjacentKeyword.seams_not_mem_keywordPairs {k : AdjacentKeyword} (hk : k ∈ all)
    (htarget : SpacingRules.isTarget f k.target i = true) :
    ∀ p ∈ k.links.seams, p ∉ keywordPairs f i := by
  intro p hp hpairs
  have hkind := SpacingRules.kind_of_isTarget htarget
  rcases mem_keywordPairs.mp hpairs with ⟨k', hk', htarget', hp'⟩ | ⟨e, he, hp'⟩
  · have hkind' := SpacingRules.kind_of_isTarget htarget'
    obtain rfl := eq_of_kindOf k hk k' hk' (hkind.symm.trans hkind')
    exact seams_not_mem_ties k hk p hp hp'
  · obtain ⟨hmem, hekind⟩ := AfterKeyword.of_forKind? he
    exact (AfterKeyword.agrees_adjacent e hmem k hk (hkind.symm.trans hekind.symm)).2 p hp hp'

theorem AfterKeyword.last_of_keywordPairs {e : AfterKeyword} {n : Nat}
    (he : forKind? (f.kind i) = some e) (hn : e.least ≤ n) :
    0 < n ∨ ∀ l ∈ e.links.getLast?, ∀ p ∈ keywordPairs f i, p.1 ≠ l.2 := by
  obtain ⟨hmem, hkind⟩ := of_forKind? he
  by_cases hleast : e.least = 0
  · right
    intro l hl p hp
    rcases mem_keywordPairs.mp hp with ⟨k, hk, htarget, _⟩ | ⟨e', he', hp'⟩
    · have hagrees := agrees_adjacent e hmem k hk
        ((SpacingRules.kind_of_isTarget htarget).symm.trans hkind.symm)
      omega
    · obtain rfl : e = e' := Option.some.inj (he.symm.trans he')
      exact last_of_least e hmem hleast l hl p hp'
  · left
    omega

theorem keywordPairs_affectation (h : f.kind i = .affectation) : keywordPairs f i = [] := by
  have hadjacent : ∀ k ∈ AdjacentKeyword.all, k.target.kindOf ≠ .affectation := by decide
  rw [List.eq_nil_iff_forall_not_mem]
  intro p hp
  rcases mem_keywordPairs.mp hp with ⟨k, hk, htarget, _⟩ | ⟨e, he, _⟩
  · exact hadjacent k hk ((SpacingRules.kind_of_isTarget htarget).symm.trans h)
  · have hnone : AfterKeyword.forKind? .affectation = none := by decide
    rw [h, hnone] at he
    cases he

end

/-! ## Valid widths -/

theorem Except.forM_eq_ok {ε α : Type} {xs : List α} {g : α → Except ε Unit}
    (h : xs.forM g = .ok ()) :
    ∀ x ∈ xs, g x = .ok () := by
  induction xs with
  | nil => simp
  | cons x xs ih =>
    rw [List.forM] at h
    cases hx : g x with
    | error e => simp [hx, bind, Except.bind] at h
    | ok u =>
      simp only [hx, bind, Except.bind] at h
      exact List.forall_mem_cons.mpr ⟨hx, ih h⟩

theorem AfterKeyword.find?_key (e : AfterKeyword) (he : e ∈ all) :
    find? e.key = some e ∧ e.least ≤ e.standard := by
  revert e
  decide

/-- Valid rules set the gap after a keyword to at least its least width. -/
theorem AfterKeyword.least_le_of_validate {r : SpacingRules} (hv : r.validate = .ok ())
    {e : AfterKeyword}
    (he : e ∈ all) {n : Nat} (hn : r.afterKeywords.count? e.key e.standard = some n) :
    e.least ≤ n := by
  obtain ⟨hfind, hstandard⟩ := find?_key e he
  have hcheck :
      SpacingRules.checkOverrides .after (fun key => (find? key).map (·.least)) r.afterKeywords =
      .ok () := by
    unfold SpacingRules.validate at hv
    simp only [bind, Except.bind] at hv
    split at hv
    · cases hv
    · split at hv
      · cases hv
      · split at hv
        · cases hv
        · exact hv
  rw [KeywordWidths.count?] at hn
  split at hn
  · rename_i henabled
    split at hn
    · rename_i width hwidth
      have hmem : (e.key, width) ∈ r.afterKeywords.overrides := by
        obtain ⟨front, back, hsplit, _⟩ := List.lookup_eq_some_iff.mp hwidth
        rw [hsplit]
        simp
      have hone := Except.forM_eq_ok hcheck _ hmem
      cases width with
      | keep => cases hn
      | exactly m =>
        obtain rfl : m = n := Option.some.inj hn
        simp only [hfind, Option.map_some, henabled, if_true, SpacingRules.checkLeast] at hone
        split at hone
        · cases hone
        · omega
    · obtain rfl := Option.some.inj hn
      exact hstandard
  · cases hn

end FortranLayout
