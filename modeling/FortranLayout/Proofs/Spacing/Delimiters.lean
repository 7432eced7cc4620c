import FortranLayout.Proofs.Spacing.KeywordsApart

/-!
# The double colons of declarations

The type and the attributes of a declaration are only reached by their own visits in the first
round, as long as what follows them is no separator, sign or marker
(`SpacingRules.exists_tail_apply`). There the double colon gets its blanks; but after a type the
blanks of a declaration without `::` are set as well, behind the double colon
(`tail_updateSpacing_delimiter`).
-/

namespace FortranLayout

open Text (blanks squeeze foldLetter leadWith endWith shiftRight strip hasNewline)

/-! ## The visit that sets a tail -/

/-- A tail that is not beside any of the kinds is left alone after the visit to its node in the
first round. -/
theorem SpacingRules.exists_tail_apply (r : SpacingRules) {f : Forest} (ho : f.Ordered) {i : NodeId}
    (hi : i < f.size) (hbeside : ¬ f.Beside (firstKinds ++ secondKinds ++ [.continuation]) i) :
    ∃ d : Draft, f.SameShape d.forest ∧ d.forest.tail i = f.tail i ∧
      (r.apply f).forest.tail i = (r.firstRound d i).forest.tail i := by
  have hself : ¬ TextSlot.tail i ≠ .tail i := not_not_intro rfl
  have hnot {kinds : List Kind} (hsub : kinds ⊆ firstKinds ++ secondKinds ++ [.continuation]) :
      ¬ f.Beside kinds i :=
    fun h => hbeside (h.imp (fun hk => hsub hk) fun ⟨n, hn, hk⟩ => ⟨n, hn, hsub hk⟩)
  have hfirst {j : NodeId} (hj : j ≠ i) : ∀ a, firstFootprint f j a → a ≠ .tail i := by
    rintro a ha rfl
    exact ha.elim (fun h => hj h.symm) (hnot (by decide))
  have hsecond (j : NodeId) : ∀ a, secondFootprint f j a → a ≠ .tail i := by
    rintro a ha rfl
    exact hnot (by decide) ha
  have hthird (j : NodeId) : ∀ a, thirdFootprint f j a → a ≠ .tail i := by
    rintro a ha rfl
    exact hnot (by decide) ha
  have hfourth (entry : AdjacentKeyword) : ∀ a, fourthFootprint f entry a → a ≠ .tail i := by
    rintro a ha rfl
    exact ha
  have hstart : f.SameShape ({ forest := f.indexed } : Draft).forest := .indexed f
  obtain ⟨d, hbefore, hafter⟩ :=
    Draft.exists_visit ho.nodup_preorder ((ho.mem_preorder i).mpr hi) hstart
    (fun _ hd => (r.edits_firstRound hd).shape) fun _ _ hj _ hd =>
      (r.edits_firstRound hd).mono (hfirst hj)
  have hshape := hstart.trans hbefore.shape
  refine ⟨d, hshape, (hbefore.tail_eq hself).trans ?_, ?_⟩
  · rw [Forest.tail, Forest.node_indexed, Forest.tail]
  have hrounds : (r.firstRound d i).Edits (· ≠ .tail i) (r.apply f) := by
    rw [apply_eq_rounds, rounds]
    have hshape₁ := (hshape.trans (r.edits_firstRound hshape).shape).trans hafter.shape
    generalize f.preorder.foldl r.firstRound { forest := f.indexed } = d₁ at hafter hshape₁
    have hedits₂ : d₁.Edits (· ≠ .tail i) (f.preorder.foldl r.secondRound d₁) :=
      Draft.edits_foldl hshape₁ fun j _ d hd => (r.edits_secondRound hd).mono (hsecond j)
    refine hafter.trans (hedits₂.trans ?_)
    have hshape₂ := hshape₁.trans hedits₂.shape
    generalize f.preorder.foldl r.secondRound d₁ = d₂ at hshape₂
    have hedits₃ : d₂.Edits (· ≠ .tail i) (f.preorder.foldl r.thirdRound d₂) :=
      Draft.edits_foldl hshape₂ fun j _ d hd => (r.edits_thirdRound hd).mono (hthird j)
    exact hedits₃.trans (Draft.edits_foldl (hshape₂.trans hedits₃.shape) fun entry _ d hd =>
      (r.edits_fourthRound hd f.preorder entry).mono (hfourth entry))
  exact hrounds.tail_eq hself

/-! ## A double colon and the blanks around it -/

/-- A double colon, with `m` blanks before and `n` blanks after it. -/
def Text.doubleColon (m n : Nat) : List Char := blanks m ++ ':' :: ':' :: blanks n

namespace Text

variable {p : Pattern} {a : Char} {m n : Nat}

theorem squeeze_doubleColon (m n : Nat) : squeeze (doubleColon m n) = [':', ':'] := by
  rw [doubleColon, squeeze_append, squeeze_blanks, List.nil_append]
  exact congrArg (fun s => ':' :: ':' :: s) (squeeze_blanks n)

/-- Other punctuation is not found there. -/
theorem Pattern.everywhere_doubleColon (ha : .char a ∈ p) (hblank : foldLetter ' ' ≠ a)
    (hcolon : foldLetter ':' ≠ a) (m n : Nat) :
    p.everywhere (doubleColon m n) = doubleColon m n := by
  refine everywhere_eq_self ha hblank fun x hx => ?_
  rw [squeeze_doubleColon] at hx
  have hx : x = ':' := by simpa using hx
  rw [hx]
  exact hcolon

theorem doubleColon_inj {b k k' : Nat} : doubleColon b k = doubleColon b k' ↔ k = k' := by
  simp [doubleColon, blanks]

theorem expandTabs_doubleColon (m n : Nat) : expandTabs (doubleColon m n) = doubleColon m n := by
  refine expandTabs_eq_self fun htab => ?_
  rw [← mem_squeeze (by decide), squeeze_doubleColon] at htab
  revert htab
  decide

theorem Pattern.everywhere_blanks (ha : .char a ∈ p) (hblank : foldLetter ' ' ≠ a) (n : Nat) :
    p.everywhere (blanks n) = blanks n :=
  everywhere_eq_self ha hblank (by simp)

theorem everywhere_joined_doubleColon (m n : Nat) :
    (Gaps.joined ':' ':').everywhere (doubleColon m n) = doubleColon m n := by
  have hmem : .char ':' ∈ Gaps.joined ':' ':' := List.mem_cons_self
  have hread : (Gaps.joined ':' ':').read (':' :: ':' :: blanks n) = some ([':', ':'], blanks n) :=
    rfl
  have hskip : (Gaps.joined ':' ':').everywhere (doubleColon m n) =
      blanks m ++ (Gaps.joined ':' ':').everywhere (':' :: ':' :: blanks n) :=
    Pattern.Seeks.blanks_append (Pattern.seeks_everywhere hmem) (by decide) m _
  rw [hskip, Pattern.everywhere_of_read hmem hread, Pattern.everywhere_blanks hmem (by decide)]
  rfl

theorem everywhere_beforeDoubleColon (b m n : Nat) :
    (Gaps.beforeDoubleColon b).everywhere (doubleColon m n) = doubleColon b n := by
  have hmem : .char ':' ∈ Gaps.beforeDoubleColon b := by simp [Gaps.beforeDoubleColon]
  have hread : (Gaps.beforeDoubleColon b).read (doubleColon m n) =
      some (blanks b ++ [':', ':'], blanks n) := by
    have hdrop : (doubleColon m n).dropWhile isBlank = ':' :: ':' :: blanks n :=
      stripLeft_blanks_append m _
    simp [Gaps.beforeDoubleColon, Pattern.read, Piece.read, hdrop, foldLetter, isBlank]
  rw [Pattern.everywhere_of_read hmem hread, Pattern.everywhere_blanks hmem (by decide),
    doubleColon, List.append_assoc]
  rfl

theorem everywhere_afterDoubleColon (a m n : Nat) :
    (Gaps.afterDoubleColon a).everywhere (doubleColon m n) = doubleColon m a := by
  have hmem : .char ':' ∈ Gaps.afterDoubleColon a := List.mem_cons_self
  have hread : (Gaps.afterDoubleColon a).read (':' :: ':' :: blanks n) =
      some (':' :: ':' :: blanks a, []) := by
    simp [Gaps.afterDoubleColon, Pattern.read, Piece.read, foldLetter, isBlank, blanks]
  have hskip : (Gaps.afterDoubleColon a).everywhere (doubleColon m n) =
      blanks m ++ (Gaps.afterDoubleColon a).everywhere (':' :: ':' :: blanks n) :=
    Pattern.Seeks.blanks_append (Pattern.seeks_everywhere hmem) (by decide) m _
  rw [hskip, Pattern.everywhere_of_read hmem hread, Pattern.everywhere_nil,
    List.append_nil, doubleColon]

theorem endWith_doubleColon (k m n : Nat) : endWith k (doubleColon m n) = doubleColon m k := by
  have hsplit (n : Nat) : doubleColon m n = (blanks m ++ [':', ':']) ++ blanks n := by
    rw [doubleColon, List.append_assoc]
    rfl
  rw [endWith, hsplit n, stripRight_append_blanks, hsplit k]
  congr 1
  simp [stripRight, isBlank]

/-- Where both counts are set, the double colon gets them, and nothing else counts. -/
theorem declDelim_doubleColon {r : SpacingRules} {a b : Nat} (hb : r.beforeDeclDelim = .exactly b)
    (ha : r.afterDeclDelim = .exactly a) (m n : Nat) :
    Gaps.declDelim r (doubleColon m n) = doubleColon b a := by
  have hjoined : (if r.inDeclDelim then (Gaps.joined ':' ':').everywhere (doubleColon m n)
      else doubleColon m n) = doubleColon m n := by
    rw [everywhere_joined_doubleColon, ite_self]
  rw [Gaps.declDelim, hjoined, hb, ha]
  dsimp only
  rw [everywhere_beforeDoubleColon, everywhere_afterDoubleColon]

end Text

open Text (doubleColon)

/-- The node is in the store, with the given tail. -/
structure Draft.HasTail (d : Draft) (i : NodeId) (s : List Char) : Prop where
  lt : i < d.forest.size
  tail_eq : (d.forest.tail i).toList = s

namespace Draft.HasTail

variable {d : Draft} {i : NodeId} {g : Nat → List Char → List Char} {s : List Char}

theorem editTail (h : d.HasTail i s) (g : List Char → List Char) :
    (d.editTail i g).HasTail i (g s) := by
  refine ⟨(d.sameShape_editSlot (.tail i) g).size_eq ▸ h.lt, ?_⟩
  rw [← h.tail_eq]
  exact slot_editSlot_self (a := .tail i) h.lt

theorem editText (h : d.HasTail i s) (g : List Char → List Char) :
    (d.editText i g).HasTail i s := by
  refine ⟨(d.sameShape_editSlot (.text i) g).size_eq ▸ h.lt, ?_⟩
  rw [tail_editText, h.tail_eq]

theorem fitTail (h : d.HasTail i s) (w : Width) :
    (d.fitTail i w g).HasTail i (w.count?.elim s (g · s)) := by
  cases w with
  | keep => exact h
  | exactly n => exact h.editTail _

/-- An edit of code that leaves this tail as it is. -/
theorem fitCode (h : d.HasTail i s) (hg : ∀ n, g n s = s) (w : Width) :
    (d.fitCode i w g).HasTail i s := by
  cases w with
  | keep => exact h
  | exactly n =>
    have htail := h.editTail (g n)
    rw [hg] at htail
    rw [Draft.fitCode, editCode]
    split
    · exact htail
    · exact htail.editText (g n)

end Draft.HasTail

namespace SpacingRules

open Draft Forest Text

variable {r : SpacingRules} {d : Draft} {i : NodeId} {a b m n : Nat}

theorem hasTail_punctuation (h : d.HasTail i (doubleColon m n)) :
    (r.punctuation d i).HasTail i (doubleColon m n) := by
  have hbefore {c : Char} (hblank : foldLetter ' ' ≠ c) (hcolon : foldLetter ':' ≠ c) (k : Nat) :
      (Gaps.before c k).everywhere (doubleColon m n) = doubleColon m n :=
    Pattern.everywhere_doubleColon (a := c) (by simp [Gaps.before]) hblank hcolon m n
  have hafter {c : Char} (hblank : foldLetter ' ' ≠ c) (hcolon : foldLetter ':' ≠ c) (k : Nat) :
      (Gaps.after c k).everywhere (doubleColon m n) = doubleColon m n :=
    Pattern.everywhere_doubleColon (a := c) (by simp [Gaps.after]) hblank hcolon m n
  have htabs :
      (if r.expandTabs then d.editTail i Text.expandTabs else d).HasTail i (doubleColon m n) := by
    split
    · have hedit := h.editTail Text.expandTabs
      rwa [expandTabs_doubleColon] at hedit
    · exact h
  have hopen := htabs.fitCode (g := Gaps.beforeParentheses) (w := r.beforeParenthesis) fun k => by
    rw [Gaps.beforeParentheses, hbefore (by decide) (by decide), hbefore (by decide) (by decide)]
  have hclose := hopen.fitCode (g := Gaps.afterParentheses) (w := r.afterParenthesis) fun k => by
    rw [Gaps.afterParentheses, hafter (by decide) (by decide), hafter (by decide) (by decide)]
  have hcommas :=
    (hclose.fitCode (hbefore (c := ',') (by decide) (by decide)) r.beforeComma).fitCode
    (hafter (c := ',') (by decide) (by decide)) r.afterComma
  rw [punctuation]
  split
  · have hedit := hcommas.editTail (Gaps.before '\n' 0).everywhere
    rwa [hbefore (by decide) (by decide)] at hedit
  · exact hcommas

/-- The number of blanks after the double colon that follows a node, where the rules set `a` of
them: after a type the blanks of a declaration without a double colon are set last. -/
def blanksAfterDelim (r : SpacingRules) (a : Nat) (kind : Kind) : Nat :=
  if kind = .typeSpec then r.afterTypeDecl.count?.getD a else a

theorem hasTail_firstRound (hb : r.beforeDeclDelim = .exactly b)
    (ha : r.afterDeclDelim = .exactly a)
    (hkind : d.forest.kind i = .typeSpec ∨ d.forest.kind i = .attributeSpec)
    (h : d.HasTail i (doubleColon m n)) :
    (r.firstRound d i).HasTail i (doubleColon b (r.blanksAfterDelim a (d.forest.kind i))) := by
  have hpunctuation : d.Edits (fun _ => True) (r.punctuation d i) :=
    r.edits_punctuation d trivial fun _ => trivial
  have hshape := hpunctuation.shape
  have hdelim := (hasTail_punctuation (r := r) h).editTail (Gaps.declDelim r)
  rw [declDelim_doubleColon hb ha] at hdelim
  rw [firstRound, kindGaps, hshape.kind_eq, blanksAfterDelim]
  rcases hkind with hkind | hkind
  · have hend := hdelim.fitTail (g := endWith) r.afterTypeDecl
    rw [hkind, if_pos rfl]
    dsimp only
    cases hw : r.afterTypeDecl with
    | keep => exact hdelim
    | exactly k =>
      rw [hw, Width.count?, Option.elim_some, endWith_doubleColon] at hend
      exact hend
  · have hne : Kind.attributeSpec ≠ .typeSpec := by decide
    rw [hkind, if_neg hne]
    exact hdelim

end SpacingRules

/-- A type or an attribute with nothing but a double colon between it and a sibling that no rule
speaks of. -/
structure Forest.DelimitedAt (f : Forest) (i : NodeId) : Prop where
  kind : f.kind i = .typeSpec ∨ f.kind i = .attributeSpec
  tail : ∃ m n, (f.tail i).toList = doubleColon m n
  next : ∃ n, f.FollowedBy i (some n) ∧ f.kind n = .other

open Forest

theorem Forest.DelimitedAt.not_beside {e : Element} {i : NodeId} (h : (ofElement e).DelimitedAt i)
    {kinds : List Kind} (hkinds : .typeSpec ∉ kinds ∧ .attributeSpec ∉ kinds ∧ .other ∉ kinds) :
    ¬ (ofElement e).Beside kinds i := by
  obtain ⟨n, hnext, hother⟩ := h.next
  rintro (hkind | ⟨n', hnext', hkind⟩)
  · rcases h.kind with htype | hattribute
    · exact hkinds.1 (htype ▸ hkind)
    · exact hkinds.2.1 (hattribute ▸ hkind)
  · obtain rfl : n = n' := Option.some.inj (hnext.unique hnext')
    exact hkinds.2.2 (hother ▸ hkind)

/-- The double colon gets the blanks that are set before it, and after an attribute also those that
are set after it; after a type it gets those of a declaration without a double colon instead, if any
are set. -/
theorem tail_updateSpacing_delimiter {r : SpacingRules} (hv : r.validate = .ok ()) {a b : Nat}
    (hb : r.beforeDeclDelim = .exactly b) (ha : r.afterDeclDelim = .exactly a) (e : Element) :
    ∃ d, updateSpacing r (ofElement e) = .ok d ∧ ∀ i, (ofElement e).DelimitedAt i →
      (d.forest.tail i).toList = doubleColon b (r.blanksAfterDelim a ((ofElement e).kind i)) ∧
      ((d.forest.tail i).toList = doubleColon b a ↔
        (ofElement e).kind i = .attributeSpec ∨ r.afterTypeDecl = .keep ∨
          r.afterTypeDecl = .exactly a) := by
  refine ⟨_, SpacingRules.updateSpacing_of_validate hv _, fun i hi => ?_⟩
  obtain ⟨m, n, htail⟩ := hi.tail
  have hlt : i < (ofElement e).size := by
    obtain ⟨_, ⟨q, xs, ys, hq, _⟩, _⟩ := hi.next
    exact (ordered_ofElement e).child_lt q i (hq ▸ List.mem_append_right xs List.mem_cons_self)
  obtain ⟨d, hshape, hsame, happly⟩ := r.exists_tail_apply (ordered_ofElement e) hlt
    (hi.not_beside (by decide))
  have hhas : d.HasTail i (doubleColon m n) := ⟨hshape.size_eq ▸ hlt, by rw [hsame, htail]⟩
  have hround := SpacingRules.hasTail_firstRound hb ha (hshape.kind_eq i ▸ hi.kind) hhas
  rw [hshape.kind_eq] at hround
  have hresult : ((r.apply (ofElement e)).forest.tail i).toList =
      doubleColon b (r.blanksAfterDelim a ((ofElement e).kind i)) := by rw [happly, hround.tail_eq]
  refine ⟨hresult, ?_⟩
  rw [hresult, Text.doubleColon_inj, SpacingRules.blanksAfterDelim]
  rcases hi.kind with hkind | hkind
  · rw [hkind, if_pos rfl]
    cases r.afterTypeDecl <;> simp [Width.count?]
  · rw [hkind, if_neg (by decide)]
    simp

/-- A declaration with one part before the variable. -/
def declarationOf (part text tail : String) : Element where
  tag := "file"
  children :=
    [{ tag := "T-decl-stmt"
       tail := "\n"
       children :=
         [{ tag := part, text := text, tail := tail }, { tag := "EN-decl", text := "X" }] }]

theorem tail_updateSpacing_delimiter_attribute :
    SpacingRules.validate { afterDeclDelim := .exactly 0 } = .ok () ∧
      (ofElement (declarationOf "attribute" "SAVE" "::  ")).DelimitedAt 2 ∧
      ∃ d, updateSpacing { afterDeclDelim := .exactly 0 }
        (ofElement (declarationOf "attribute" "SAVE" "::  ")) =
        .ok d ∧ (d.forest.tail 2).toList = doubleColon 1 0 := by
  obtain ⟨d, hd, htail⟩ :=
    tail_updateSpacing_delimiter (r := { afterDeclDelim := .exactly 0 }) rfl (a := 0)
    (b := 1) rfl rfl (declarationOf "attribute" "SAVE" "::  ")
  have hdelimited : (ofElement (declarationOf "attribute" "SAVE" "::  ")).DelimitedAt 2 :=
    ⟨Or.inr (by decide +kernel), ⟨0, 2, by decide +kernel⟩,
      ⟨3, ⟨1, [], [3], by decide +kernel, rfl⟩, by decide +kernel⟩⟩
  exact ⟨rfl, hdelimited, d, hd, (htail 2 hdelimited).2.mpr (Or.inl (by decide +kernel))⟩

/-- No blank is to be after the double colon, and there is one. -/
theorem tail_updateSpacing_delimiter_type :
    SpacingRules.validate { afterDeclDelim := .exactly 0 } = .ok () ∧
      (ofElement (declarationOf "_T-spec_" "INTEGER" " :: ")).DelimitedAt 2 ∧
      ∃ d, updateSpacing { afterDeclDelim := .exactly 0 }
        (ofElement (declarationOf "_T-spec_" "INTEGER" " :: ")) =
        .ok d ∧ d.forest.tail 2 = " :: " ∧ (d.forest.tail 2).toList ≠ doubleColon 1 0 ∧
        d.forest.source = "INTEGER :: X\n" := by
  have hdelimited : (ofElement (declarationOf "_T-spec_" "INTEGER" " :: ")).DelimitedAt 2 :=
    ⟨Or.inl (by decide +kernel), ⟨1, 1, by decide +kernel⟩,
      ⟨3, ⟨1, [], [3], by decide +kernel, rfl⟩, by decide +kernel⟩⟩
  have hresult : (SpacingRules.apply { afterDeclDelim := .exactly 0 }
      (ofElement (declarationOf "_T-spec_" "INTEGER" " :: "))).forest.tail 2 = " :: " ∧
      (SpacingRules.apply { afterDeclDelim := .exactly 0 }
        (ofElement (declarationOf "_T-spec_" "INTEGER" " :: "))).forest.source =
          "INTEGER :: X\n" := by
    decide +kernel
  refine ⟨rfl, hdelimited, _, SpacingRules.updateSpacing_of_validate rfl _,
    hresult.1, ?_, hresult.2⟩
  rw [hresult.1]
  decide

end FortranLayout
