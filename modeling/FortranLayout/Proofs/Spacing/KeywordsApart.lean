import FortranLayout.Proofs.Spacing.Texts

/-!
# Keywords stay apart from what follows them

A statement begins with its keyword, and the blank behind it is in the text of the statement, in
front of the first child. Only two rules can take it away: the one that sets the gap after the
keyword, and the one that sets the gap before a marker, if the first child is one
(`SpacingRules.endsBlank_apply`). So rules set a keyword apart from a word that follows it exactly
if they do not set the gap after it to nothing, and that is what the least widths of the table see
to for all keywords but two (`SpacingRules.setsApart_iff`).
-/

namespace FortranLayout

namespace Text

variable {p : Pattern} {s : List Char} {a : Char} {xs : List Char} {γ : Nat → Nat}

/-! ## Searches without a match -/

/-- Where a pattern is found, each of its characters is there. -/
theorem Pattern.exists_of_read (ha : .char a ∈ p) (hblank : foldLetter ' ' ≠ a)
    {m : List Char × List Char} (h : p.read s = some m) : ∃ x ∈ squeeze s, foldLetter x = a := by
  induction p generalizing s m with
  | nil => cases ha
  | cons q p ih =>
    obtain ⟨written, rest⟩ := m
    obtain ⟨first, middle, others, hq, hp, -⟩ := read_cons_eq_some.mp h
    rcases List.mem_cons.mp ha with rfl | ha
    · obtain ⟨x, hx, rfl, -⟩ := Piece.read_char.mp hq
      refine ⟨x, (mem_squeeze ?_).mpr List.mem_cons_self, hx⟩
      rw [isBlank, beq_eq_false_iff_ne]
      rintro rfl
      exact hblank hx
    · obtain ⟨x, hx, hfold⟩ := ih ha hp
      rw [← Piece.squeeze_read hq]
      exact ⟨x, List.mem_append_right _ hx, hfold⟩

theorem Pattern.everywhere_eq_self (ha : .char a ∈ p) (hblank : foldLetter ' ' ≠ a)
    (hs : ∀ x ∈ squeeze s, foldLetter x ≠ a) : p.everywhere s = s := by
  induction hl : s.length using Nat.strongRecOn generalizing s with
  | ind l ih =>
    cases s with
    | nil => rfl
    | cons c s =>
      have hnone : p.read (c :: s) = none := by
        cases hread : p.read (c :: s) with
        | none => rfl
        | some m =>
          obtain ⟨x, hx, hfold⟩ := exists_of_read ha hblank hread
          exact absurd hfold (hs x hx)
      have hle := p.length_advance_le c s
      rw [List.length_cons] at hl
      have hrest : p.everywhere (p.advance c s).2 = (p.advance c s).2 := by
        refine ih _ (by omega) (fun x hx => hs x ?_) rfl
        rw [← p.advance_append c s, squeeze_append]
        exact List.mem_append_right _ hx
      rw [everywhere_of_none ha hnone, hrest, p.advance_append]

/-! ## The blank at the end of a text -/

theorem getLast?_spread (hx : Inked xs) (γ : Nat → Nat) :
    (spread xs γ).getLast? = some ' ' ↔ γ xs.length ≠ 0 := by
  cases hlast : γ xs.length with
  | succ n => simp [spread, hlast, blanks, List.replicate_succ']
  | zero =>
    cases xs using List.reverseRecOn with
    | nil => simp [spread_nil, blanks, List.length_nil ▸ hlast]
    | append_singleton xs x =>
      have hne : x ≠ ' ' := by simpa [isBlank] using hx x (by simp)
      have hspread : spread (xs ++ [x]) γ = (strew xs γ ++ blanks (γ xs.length)) ++ [x] := by
        rw [spread, hlast, strew_append]
        simp [strew, blanks]
      rw [hspread, List.getLast?_concat]
      simpa using hne

theorem getLast?_endWith (n : Nat) (s : List Char) : (endWith n s).getLast? = some ' ' ↔ n ≠ 0 := by
  have hx := inked_squeeze s
  rw [← spread_gapsOf s, endWith_spread hx, getLast?_spread hx, Function.update_self]

end Text

open Text (squeeze spread gapsOf foldLetter isWordChar isInk hasNewline)

/-- Joining or parting the words of a keyword does not reach the end of a text. -/
theorem AdjacentKeyword.getLast?_apply {k : AdjacentKeyword} (hk : k ∈ all) (n : Nat)
    (s : List Char) :
    (k.apply n s).getLast? = some ' ' ↔ s.getLast? = some ' ' := by
  have hx := Text.inked_squeeze s
  obtain ⟨l, ls, -, htight, hsound, happly⟩ := exists_sweep hk
  obtain ⟨ρ, hρ, _⟩ := Text.Chain.exists_resets hsound hx (gapsOf s)
  have hlast : ρ n (squeeze s).length = .keep := by
    refine ((hρ n).touched _).resolve_right ?_
    rintro ⟨-, htouched⟩
    obtain ⟨j, x, y, hj, -, hy, -⟩ := (Text.Chain.touched_of_tight htight).mp htouched
    rw [← hj, List.getElem?_eq_none (Nat.le_refl _)] at hy
    cases hy
  have hspread : k.apply n s = spread (squeeze s) (Text.regap (ρ n) (gapsOf s)) := by
    rw [happly, ← (hρ n).everywhere_eq (gapsOf s) fun _ _ => Iff.rfl, Text.spread_gapsOf]
  rw [hspread, Text.getLast?_spread hx, Text.regap, hlast, Text.GapRule.fit,
    ← Text.getLast?_spread hx, Text.spread_gapsOf]

namespace AfterKeyword

/-- The letters of the keyword. -/
def letters (k : AfterKeyword) : List Char := k.words.flatMap String.toList

/-- The text spells the keyword, in either case and with any blanks among its letters. -/
def Spells (k : AfterKeyword) (s : List Char) : Prop := (squeeze s).map foldLetter = k.letters

instance (k : AfterKeyword) (s : List Char) : Decidable (k.Spells s) :=
  inferInstanceAs (Decidable (_ = _))

/-- The text is the keyword and at least one blank after it. -/
def Opens (k : AfterKeyword) (s : List Char) : Prop := k.Spells s ∧ s.getLast? = some ' '

instance (k : AfterKeyword) (s : List Char) : Decidable (k.Opens s) :=
  inferInstanceAs (Decidable (_ ∧ _))

variable {k : AfterKeyword} {s : List Char} {n : Nat}

theorem length_links (k : AfterKeyword) (hk : k ∈ all) : k.links.length = k.letters.length := by
  revert k
  decide +kernel

theorem isLower_letters (k : AfterKeyword) (hk : k ∈ all) : k.letters.all Char.isLower = true := by
  revert k
  decide +kernel

/-- Nothing but the letters of the keyword is in the text. -/
theorem Spells.ne (hs : k.Spells s) (hk : k ∈ all) {c : Char} (hc : c.isLower = false) :
    ∀ x ∈ squeeze s, foldLetter x ≠ c := by
  rintro x hx rfl
  have hmem : foldLetter x ∈ k.letters := hs ▸ List.mem_map_of_mem hx
  rw [List.all_eq_true.mp (isLower_letters k hk) _ hmem] at hc
  cases hc

theorem Spells.hasNewline_eq (hs : k.Spells s) (hk : k ∈ all) : hasNewline s = false := by
  rw [hasNewline, List.contains_eq_mem, decide_eq_false_iff_not, ← Text.mem_squeeze (by decide)]
  intro hmem
  exact hs.ne hk (c := '\n') (by decide) '\n' hmem (by decide)

/-- Setting the gap after the keyword to some blanks leaves it apart from what follows. -/
theorem getLast?_apply (hk : k ∈ all) (hs : k.Spells s) (hn : n ≠ 0)
    (hend : s.getLast? = some ' ') :
    (k.apply n s).getLast? = some ' ' := by
  have hx := Text.inked_squeeze s
  obtain ⟨hchars, hkept, -⟩ := links_sound k hk
  have hlength : k.links.length = (squeeze s).length := by
    rw [length_links k hk, ← hs, List.length_map]
  rw [apply, pattern_eq hk, ← Text.spread_gapsOf s]
  by_cases hfits : k.links.Fits (squeeze s) (gapsOf s)
  · rw [Text.Chain.atStart_of_fits hx hkept hfits, if_neg, hlength, Text.getLast?_spread hx,
      Function.update_self]
    · exact hn
    · rintro ⟨-, hword⟩
      rw [hlength, List.getElem?_eq_none (Nat.le_refl _)] at hword
      cases hword
  · rw [Text.Pattern.atStart, Text.Chain.read_of_not_fits hx hchars hfits]
    rwa [Text.spread_gapsOf]

end AfterKeyword

/-! ## The text of a statement -/

namespace SpacingRules

open Draft Forest

variable {r : SpacingRules} {k : AfterKeyword} {d : Draft} {f : Forest} {i c : NodeId}

/-- The text of a statement with the blanks that the rules set after its keyword. -/
def textAfterKeyword (r : SpacingRules) (k : AfterKeyword) (s : List Char) : List Char :=
  (r.afterKeywords.count? k.key k.standard).elim s (k.apply · s)

theorem squeeze_textAfterKeyword (r : SpacingRules) (k : AfterKeyword) (s : List Char) :
    squeeze (r.textAfterKeyword k s) = squeeze s := by
  rw [textAfterKeyword]
  cases r.afterKeywords.count? k.key k.standard with
  | none => rfl
  | some n => exact Text.Pattern.onlyBlanks_atStart _ s

theorem text_fitCode {w : Width} {g : Nat → List Char → List Char}
    (hg : ∀ n, g n (d.forest.text i).toList = (d.forest.text i).toList) :
    (d.fitCode i w g).forest.text i = d.forest.text i := by
  cases w with
  | keep => rfl
  | exactly n =>
    have htail := text_editTail d i i (g n)
    rw [fitCode, editCode]
    split
    · exact htail
    · rw [editText, htail, hg, String.ofList_toList, if_pos rfl, htail]

/-- Among the letters of a keyword there is no punctuation. -/
theorem text_punctuation (hk : k ∈ AfterKeyword.all) (hs : k.Spells (d.forest.text i).toList) :
    (r.punctuation d i).forest.text i = d.forest.text i := by
  have hbefore {a : Char} (hlower : a.isLower = false) (hblank : foldLetter ' ' ≠ a) (n : Nat) :
      (Gaps.before a n).everywhere (d.forest.text i).toList = (d.forest.text i).toList :=
    Text.Pattern.everywhere_eq_self (a := a) (by simp [Gaps.before]) hblank (hs.ne hk hlower)
  have hafter {a : Char} (hlower : a.isLower = false) (hblank : foldLetter ' ' ≠ a) (n : Nat) :
      (Gaps.after a n).everywhere (d.forest.text i).toList = (d.forest.text i).toList :=
    Text.Pattern.everywhere_eq_self (a := a) (by simp [Gaps.after]) hblank (hs.ne hk hlower)
  have hfit {d' : Draft} (hd : d'.forest.text i = d.forest.text i) (w : Width)
      (g : Nat → List Char → List Char)
      (hg : ∀ n, g n (d.forest.text i).toList = (d.forest.text i).toList) :
      (d'.fitCode i w g).forest.text i = d.forest.text i := by
    rw [text_fitCode (by rwa [hd]), hd]
  have htabs : (if r.expandTabs then d.editTail i Text.expandTabs else d).forest.text i =
      d.forest.text i := by
    split
    · exact text_editTail d i i _
    · rfl
  have hopen := hfit htabs r.beforeParenthesis Gaps.beforeParentheses fun n => by
    rw [Gaps.beforeParentheses, hbefore (by decide) (by decide), hbefore (by decide) (by decide)]
  have hclose := hfit hopen r.afterParenthesis Gaps.afterParentheses fun n => by
    rw [Gaps.afterParentheses, hafter (by decide) (by decide), hafter (by decide) (by decide)]
  have hcomma :=
    hfit (hfit hclose r.beforeComma _ (hbefore (a := ',') (by decide) (by decide))) r.afterComma _
    (hafter (a := ',') (by decide) (by decide))
  rw [punctuation]
  split
  · rw [text_editTail]
    exact hcomma
  · exact hcomma

theorem kindGaps_of_keyword (hk : k ∈ AfterKeyword.all) (hkind : d.forest.kind i = k.kind) :
    r.kindGaps d i = r.keywordGap d i := by
  simp only [AfterKeyword.all, List.mem_cons, List.not_mem_nil, or_false] at hk
  rcases hk with rfl | rfl | rfl | rfl | rfl | rfl <;> simp only [kindGaps, hkind]

theorem secondRound_of_keyword (hk : k ∈ AfterKeyword.all) (hkind : d.forest.kind i = k.kind) :
    r.secondRound d i = d := by
  simp only [AfterKeyword.all, List.mem_cons, List.not_mem_nil, or_false] at hk
  rcases hk with rfl | rfl | rfl | rfl | rfl | rfl <;> simp only [secondRound, hkind]

theorem forKind?_kind (k : AfterKeyword) (hk : k ∈ AfterKeyword.all) :
    AfterKeyword.forKind? k.kind = some k ∧ k.kind ≠ .affectation := by
  revert k
  decide +kernel

theorem text_firstRound (hk : k ∈ AfterKeyword.all) (hkind : d.forest.kind i = k.kind)
    (hs : k.Spells (d.forest.text i).toList) (hc : c ∈ d.forest.children i) :
    ((r.firstRound d i).forest.text i).toList = r.textAfterKeyword k (d.forest.text i).toList := by
  have hpunctuation : d.Edits (fun _ => True) (r.punctuation d i) :=
    r.edits_punctuation d trivial fun _ => trivial
  have hshape := hpunctuation.shape
  have htext := text_punctuation (r := r) hk hs
  rw [firstRound]
  generalize r.punctuation d i = d' at hshape htext
  have hkind' : d'.forest.kind i = k.kind := (hshape.kind_eq i).trans hkind
  have hchildren : d'.forest.hasChildren i = true := by
    rw [hshape.hasChildren_eq, hasChildren, Bool.not_eq_true', List.isEmpty_eq_false_iff]
    exact List.ne_nil_of_mem hc
  have hi : i < d'.forest.size := hshape.size_eq ▸ lt_size_of_mem_children hc
  rw [kindGaps_of_keyword hk hkind', keywordGap, hkind', (forKind?_kind k hk).1,
    textAfterKeyword, ← htext]
  dsimp only
  cases r.afterKeywords.count? k.key k.standard with
  | none => rfl
  | some n =>
    dsimp only
    rw [if_pos hchildren]
    exact slot_editSlot_self (a := .text i) hi

/-- What no step changes, no run of steps changes. -/
theorem foldl_iff {α : Type} {P : Draft → Prop} {step : Draft → α → Draft} {xs : List α}
    (h : ∀ x ∈ xs, ∀ d, P (step d x) ↔ P d) (d : Draft) : P (xs.foldl step d) ↔ P d := by
  induction xs generalizing d with
  | nil => rfl
  | cons x xs ih =>
    obtain ⟨hx, hxs⟩ := List.forall_mem_cons.mp h
    exact (ih hxs _).trans (hx d)

/-- The text of the node ends with a blank. -/
def EndsBlank (i : NodeId) (d : Draft) : Prop := (d.forest.text i).toList.getLast? = some ' '

theorem endsBlank_editText {g : List Char → List Char}
    (hg : ∀ s, (g s).getLast? = some ' ' ↔ s.getLast? = some ' ') (d : Draft) (i j : NodeId) :
    EndsBlank i (d.editText j g) ↔ EndsBlank i d := by
  by_cases hj : j = i
  · subst hj
    by_cases hlt : j < d.forest.size
    · have htext : ((d.editText j g).forest.text j).toList = g (d.forest.text j).toList :=
        slot_editSlot_self (a := .text j) hlt
      rw [EndsBlank, htext, hg, EndsBlank]
    · -- Outside the store there is no text.
      have hle := Nat.le_of_not_lt hlt
      have hsize : (d.editText j g).forest.size = d.forest.size :=
        (d.sameShape_editSlot (.text j) g).size_eq
      rw [EndsBlank, EndsBlank, text, node_of_le (hsize ▸ hle), text, node_of_le hle]
  · have hother : (d.editText j g).forest.slot (.text i) = d.forest.slot (.text i) :=
      slot_editSlot_of_ne (a := .text j) (by simpa using Ne.symm hj)
    exact Eq.congr_left (congrArg List.getLast? hother)

/-- The fourth round does not reach the end of a text. -/
theorem endsBlank_fourthRounds (r : SpacingRules) (order : List NodeId) (d : Draft) (i : NodeId) :
    EndsBlank i (AdjacentKeyword.all.foldl (r.fourthRound order) d) ↔ EndsBlank i d := by
  refine foldl_iff (fun entry hentry d => ?_) d
  rw [fourthRound]
  cases r.adjacentKeywords.count? entry.key entry.standard with
  | none => rfl
  | some n =>
    refine foldl_iff (fun j _ d => ?_) d
    split
    · exact endsBlank_editText (AdjacentKeyword.getLast?_apply hentry n) d i j
    · rfl

/-- The keyword is set when its statement is visited in the first round. -/
theorem text_firstRounds (r : SpacingRules) {order : List NodeId} (hnodup : order.Nodup)
    (hi : i ∈ order) (d : Draft) (hk : k ∈ AfterKeyword.all) (hkind : d.forest.kind i = k.kind)
    (hs : k.Spells (d.forest.text i).toList) (hc : c ∈ d.forest.children i) :
    d.forest.SameShape (order.foldl r.firstRound d).forest ∧
      ((order.foldl r.firstRound d).forest.text i).toList =
        r.textAfterKeyword k (d.forest.text i).toList := by
  have hself : ¬ TextSlot.text i ≠ .text i := not_not_intro rfl
  have hother {f : Forest} {j : NodeId} (hj : j ≠ i) : ∀ a, firstFootprint f j a → a ≠ .text i := by
    rintro a ha rfl
    exact hj ha.1.symm
  obtain ⟨d', hbefore, hafter⟩ := exists_visit hnodup hi (.refl d.forest)
    (fun _ hd => (r.edits_firstRound hd).shape) fun _ _ hj _ hd =>
      (r.edits_firstRound hd).mono (hother hj)
  have htext := hbefore.text_eq hself
  refine ⟨(hbefore.shape.trans (r.edits_firstRound hbefore.shape).shape).trans hafter.shape, ?_⟩
  rw [hafter.text_eq hself,
    text_firstRound hk ((hbefore.shape.kind_eq i).trans hkind) (by rwa [htext])
    (by rwa [hbefore.shape.children_eq]), htext]

/-- The second round has no rule for the statement. -/
theorem rewords_secondRounds (r : SpacingRules) (order : List NodeId) (d : Draft)
    (hk : k ∈ AfterKeyword.all) (hkind : d.forest.kind i = k.kind) :
    d.Rewords (fun j _ => j ≠ i) (order.foldl r.secondRound d) := by
  refine rewords_foldl d fun j _ d' hd' => ?_
  have hkind' : d'.forest.kind i = k.kind := (hd' i).trans hkind
  by_cases hj : j = i
  · subst hj
    rw [secondRound_of_keyword hk hkind']
    exact .refl d'
  · have hround := r.rewords_secondRound d' j
    refine ⟨hround.shape, fun j' hj' => hround.text_eq j' ?_⟩
    obtain rfl : j' = i := not_not.mp hj'
    rintro ⟨rfl | haffectation, -⟩
    · exact hj rfl
    · exact (forKind?_kind k hk).2 (hkind'.symm.trans haffectation)

/-- Whether the text of a statement ends with a blank is settled where its keyword is set, unless
the blanks before a marker are set behind it. -/
theorem endsBlank_apply (r : SpacingRules) (ho : f.Ordered) (hk : k ∈ AfterKeyword.all)
    (hkind : f.kind i = k.kind) (hs : k.Spells (f.text i).toList) (hc : f.firstChild? i = some c) :
    EndsBlank i (r.apply f) ↔
      if f.kind c = .continuation ∧ r.beforeEndMarker ≠ .keep then r.beforeEndMarker ≠ .exactly 0
      else (r.textAfterKeyword k (f.text i).toList).getLast? = some ' ' := by
  have hmem : c ∈ f.children i := List.mem_of_mem_head? hc
  have hi : i ∈ f.preorder := (ho.mem_preorder i).mpr (lt_size_of_mem_children hmem)
  have hindexed : f.indexed.text i = f.text i := by rw [text, node_indexed, text]
  have hshape := SameShape.indexed f
  obtain ⟨hshape₁, htext₁⟩ := r.text_firstRounds ho.nodup_preorder hi { forest := f.indexed } hk
    ((hshape.kind_eq i).trans hkind) (by rwa [hindexed]) (by rwa [hshape.children_eq])
  rw [apply_eq_rounds, rounds, endsBlank_fourthRounds]
  generalize f.preorder.foldl r.firstRound { forest := f.indexed } = d₁ at hshape₁ htext₁
  dsimp only at htext₁
  rw [hindexed] at htext₁
  replace hshape₁ := hshape.trans hshape₁
  have hsecond := r.rewords_secondRounds f.preorder d₁ hk ((hshape₁.kind_eq i).trans hkind)
  rw [EndsBlank, (r.text_thirdRounds ho.nodup_preorder hi _).2,
    textAtMarker_congr hsecond.shape (hsecond.text_eq i (not_not_intro rfl))]
  -- The keyword with the blanks around it is on one line.
  have hspells : k.Spells (r.textAfterKeyword k (f.text i).toList) := by
    rw [AfterKeyword.Spells, squeeze_textAfterKeyword]
    exact hs
  have hends : d₁.forest.endsAtMarker i = (f.kind c == .continuation) := by
    rw [endsAtMarker, firstChild?, hshape₁.children_eq, ← firstChild?, hc, htext₁,
      hspells.hasNewline_eq hk, Option.any_some, hshape₁.kind_eq]
    exact Bool.and_true _
  rw [textAtMarker, hends, htext₁]
  by_cases hmarker : f.kind c = .continuation
  · rw [hmarker]
    cases r.beforeEndMarker with
    | keep => simp [Width.count?]
    | exactly n => simp [Width.count?, Text.getLast?_endWith]
  · simp [hmarker]

end SpacingRules

/-! ## The word after the keyword -/

/-- A relaid store has the same source, up to the characters that may change. -/
theorem Forest.Relaid.filter_source {q : Char → Bool} {f g : Forest}
    (h : Relaid q q f g) (s : Shape) :
    (g.elementOf s).source.toList.filter q = (f.elementOf s).source.toList.filter q := by
  induction s using Shape.induct with
  | h i cs ih =>
    have hcs : (Element.sources (cs.map g.elementOf)).toList.filter q =
        (Element.sources (cs.map f.elementOf)).toList.filter q := by
      induction cs with
      | nil => rfl
      | cons c cs ihcs =>
        obtain ⟨hc, hrest⟩ := List.forall_mem_cons.mp ih
        simp [Element.sources, hc, ihcs hrest]
    simp [Element.source, hcs, h.text_eq, h.tail_eq]

namespace SpacingRules

open Forest

/-- Spacing by the rules leaves the keyword of a statement apart from a word character that follows
it: if the text of the statement is its keyword and some blanks, and its first child begins with the
character, then so it is afterwards, but for blanks and tabs before the character. Where the first
child is a marker, the rules must not take away the blanks before it. -/
def SetsApart (r : SpacingRules) (k : AfterKeyword) : Prop :=
  ∀ (e : Element) (i c : NodeId) (x : Char), (ofElement e).kind i = k.kind →
    k.Opens ((ofElement e).text i).toList → (ofElement e).firstChild? i = some c →
    ((ofElement e).sourceOf c).toList.head? = some x → isWordChar x = true →
    ((ofElement e).kind c = .continuation → r.beforeEndMarker ≠ .exactly 0) →
    ∃ d, updateSpacing r (ofElement e) = .ok d ∧ k.Opens (d.forest.text i).toList ∧
      d.forest.firstChild? i = some c ∧ ((d.forest.sourceOf c).toList.filter isInk).head? = some x

variable {r : SpacingRules} {k : AfterKeyword}

theorem isInk_of_isWordChar {x : Char} (hx : isWordChar x = true) : isInk x = true := by
  have hblank : isWordChar ' ' = false := by decide
  have htab : isWordChar '\t' = false := by decide
  have hne {c : Char} (hc : isWordChar c = false) : x ≠ c := by
    rintro rfl
    rw [hx] at hc
    cases hc
  simp [isInk, Text.isBlank, hne hblank, hne htab]

/-- Spacing keeps the first character of a node that is neither blank nor tab. -/
theorem head?_source_apply (r : SpacingRules) (f : Forest) (c : NodeId) {x : Char}
    (hhead : (f.sourceOf c).toList.head? = some x) (hx : isWordChar x = true) :
    (((r.apply f).forest.sourceOf c).toList.filter isInk).head? = some x := by
  have hrelaid : Relaid isInk isInk f (r.apply f).forest :=
    (r.relaid_apply f).mono (fun c hc => (Bool.and_eq_true_iff.mp hc).1) fun _ hc => hc
  have hsource : ((r.apply f).forest.sourceOf c).toList.filter isInk =
      (f.sourceOf c).toList.filter isInk := by
    rw [sourceOf, element, hrelaid.shape_eq, hrelaid.filter_source, sourceOf, element]
  rw [hsource]
  cases hlist : (f.sourceOf c).toList with
  | nil =>
    rw [hlist] at hhead
    cases hhead
  | cons y s =>
    rw [hlist, List.head?_cons, Option.some.injEq] at hhead
    subst hhead
    rw [List.filter_cons_of_pos (isInk_of_isWordChar hx), List.head?_cons]

theorem setsApart_of_count (hv : r.validate = .ok ()) (hk : k ∈ AfterKeyword.all)
    (hcount : r.afterKeywords.count? k.key k.standard ≠ some 0) : r.SetsApart k := by
  intro e i c x hkind ⟨hs, hend⟩ hc hhead hx hmarker
  have hrelaid := r.relaid_apply (ofElement e)
  refine ⟨_, updateSpacing_of_validate hv _, ⟨?_, ?_⟩, ?_, r.head?_source_apply _ c hhead hx⟩
  · rw [AfterKeyword.Spells, squeeze, hrelaid.text_eq]
    exact hs
  · refine (r.endsBlank_apply (ordered_ofElement e) hk hkind hs hc).mpr ?_
    split
    · rename_i h
      exact hmarker h.1
    · rw [textAfterKeyword]
      cases hn : r.afterKeywords.count? k.key k.standard with
      | none => exact hend
      | some n => exact AfterKeyword.getLast?_apply hk hs (fun h => hcount (h ▸ hn)) hend
  · rw [firstChild?, hrelaid.children_eq]
    exact hc

/-- A statement with one child. -/
def statementBefore (tag text : String) (child : Element) : Element where
  tag := "file"
  children := [{ tag := tag, text := text, tail := "\n", children := [child] }]

/-- Rules that set the gap after a keyword to nothing glue it to a word that follows. -/
theorem not_setsApart (hv : r.validate = .ok ()) (hk : k ∈ AfterKeyword.all)
    (hcount : r.afterKeywords.count? k.key k.standard = some 0) {e : Element}
    {i c : NodeId} {x : Char}
    (hkind : (ofElement e).kind i = k.kind) (hopens : k.Opens ((ofElement e).text i).toList)
    (hc : (ofElement e).firstChild? i = some c) (hmarker : (ofElement e).kind c ≠ .continuation)
    (hhead : ((ofElement e).sourceOf c).toList.head? = some x) (hx : isWordChar x = true)
    (hglued : (k.apply 0 ((ofElement e).text i).toList).getLast? ≠ some ' ') : ¬ r.SetsApart k := by
  intro h
  obtain ⟨d, hd, ⟨_, hend⟩, _⟩ :=
    h e i c x hkind hopens hc hhead hx fun hcont => absurd hcont hmarker
  rw [updateSpacing_of_validate hv] at hd
  cases hd
  have hblank := (r.endsBlank_apply (ordered_ofElement e) hk hkind hopens.1 hc).mp hend
  rw [if_neg fun hcont => hmarker hcont.1, textAfterKeyword, hcount] at hblank
  exact hglued hblank

/-- Rules set a keyword apart exactly if they do not set the gap after it to nothing; valid rules
set those keywords apart whose least width is not nothing. -/
theorem setsApart_iff (hv : r.validate = .ok ()) (hk : k ∈ AfterKeyword.all) :
    (r.SetsApart k ↔ r.afterKeywords.count? k.key k.standard ≠ some 0) ∧
      (0 < k.least → r.SetsApart k) := by
  have hleast (hcount : r.afterKeywords.count? k.key k.standard = some 0) : k.least = 0 :=
    Nat.le_zero.mp (AfterKeyword.least_le_of_validate hv hk hcount)
  refine ⟨⟨fun h hcount => ?_, setsApart_of_count hv hk⟩,
    fun hpos => setsApart_of_count hv hk fun hcount => ?_⟩
  · refine absurd h ?_
    have hzero := hleast hcount
    have hmem := hk
    simp only [AfterKeyword.all, List.mem_cons, List.not_mem_nil, or_false] at hmem
    rcases hmem with rfl | rfl | rfl | rfl | rfl | rfl
    · refine not_setsApart
        (e := statementBefore "print-stmt" "PRINT " { tag := "N", text := "FMT" }) (i := 1)
        (c := 2) (x := 'F') hv hk hcount ?_ ?_ ?_ ?_ ?_ ?_ ?_ <;> decide +kernel
    iterate 4 cases hzero
    · refine not_setsApart
        (e := statementBefore "save-stmt" "SAVE " { tag := "N", text := "X" }) (i := 1)
        (c := 2) (x := 'X') hv hk hcount ?_ ?_ ?_ ?_ ?_ ?_ ?_ <;> decide +kernel
  · have hzero := hleast hcount
    omega

theorem setsApart_iff_standard :
    validate {} = .ok () ∧ SetsApart {} { words := ["call"], kind := .callStmt } ∧
      ¬ SetsApart {} { words := ["print"], kind := .printStmt, standard := 0, least := 0 } :=
  ⟨rfl, (setsApart_iff rfl (by decide)).2 (by decide),
    fun h => (setsApart_iff rfl (by decide)).1.mp h (by decide +kernel)⟩

/-- A PRINT loses its blank by the standard rules, and a CALL loses it before a marker that is a
word. -/
theorem glued_statements :
    (validate {} = .ok () ∧
      (ofElement (statementBefore "print-stmt" "PRINT " { tag := "N", text := "FMT" })).kind 1 =
        .printStmt ∧
      (ofElement (statementBefore "print-stmt" "PRINT " { tag := "N", text := "FMT" })).source =
        "PRINT FMT\n" ∧
      ∃ d, updateSpacing {}
          (ofElement (statementBefore "print-stmt" "PRINT " { tag := "N", text := "FMT" })) =
            .ok d ∧
        d.forest.text 1 = "PRINT" ∧ d.forest.source = "PRINTFMT\n") ∧
    (validate { beforeEndMarker := .exactly 0 } = .ok () ∧
      (ofElement (statementBefore "call-stmt" "CALL " { tag := "cnt", text := "A" })).kind 1 =
        .callStmt ∧
      (ofElement (statementBefore "call-stmt" "CALL " { tag := "cnt", text := "A" })).source =
        "CALL A\n" ∧
      ∃ d, updateSpacing { beforeEndMarker := .exactly 0 }
          (ofElement (statementBefore "call-stmt" "CALL " { tag := "cnt", text := "A" })) = .ok d ∧
        d.forest.text 1 = "CALL" ∧ d.forest.source = "CALLA\n") := by
  refine ⟨⟨rfl, ?_, ?_, _, updateSpacing_of_validate rfl _, ?_, ?_⟩, rfl, ?_, ?_, _,
    updateSpacing_of_validate rfl _, ?_, ?_⟩ <;> decide +kernel

end SpacingRules

end FortranLayout
