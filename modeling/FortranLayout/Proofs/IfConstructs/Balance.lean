import FortranLayout.Proofs.IfConstructs.Conversion
import Mathlib.Algebra.BigOperators.Group.List.Basic
import Mathlib.Data.Multiset.OrderedMonoid
import Mathlib.Tactic.Abel

/-!
# The balance of characters of a conversion

The characters of a converted element, without their order, are compared with its *limit*: what the
element had, and THEN and END IF for each statement that is converted. They never exceed the limit,
and they reach it if and only if no conversion leaves out a character of code
(`Element.Converts.balanced`).
-/

namespace FortranLayout

open Forest (thenTail)
open Text (lineBreak)

/-! ## Limits that add up -/

/-- Not more than the limit, and equal to it under one condition only. -/
structure Balanced (m limit : Multiset Char) (whole : Prop) : Prop where
  le : m ≤ limit
  eq_iff : m = limit ↔ whole

namespace Balanced

variable {m m' l l' : Multiset Char} {P Q : Prop}

theorem refl (m : Multiset Char) : Balanced m m True := ⟨le_refl m, by simp⟩

theorem add (h : Balanced m l P) (h' : Balanced m' l' Q) : Balanced (m + m') (l + l') (P ∧ Q) :=
  ⟨add_le_add h.le h'.le, by rw [add_eq_add_iff_eq_and_eq h.le h'.le, h.eq_iff, h'.eq_iff]⟩

/-- What is in the limit only has to be nothing. -/
theorem zero (l : Multiset Char) : Balanced 0 l (l = 0) := ⟨Multiset.zero_le l, eq_comm⟩

theorem congr (h : Balanced m l P) (hm : m = m') (hl : l = l') (hP : P ↔ Q) : Balanced m' l' Q :=
  ⟨hm ▸ hl ▸ h.le, by rw [← hm, ← hl, h.eq_iff, hP]⟩

end Balanced

namespace Element

/-! ## Characters as a multiset -/

/-- The characters of the code of an element, without their order. -/
def letters (e : Element) : Multiset Char := ↑(e.code .outsideMarkers)

/-- The characters of code in a text. -/
def textLetters (s : String) : Multiset Char := ↑(View.outsideMarkers.read s)

theorem textLetters_append (s t : String) :
    textLetters (s ++ t) = textLetters s + textLetters t := by
  simp [textLetters]

theorem coe_flatMap_code (es : List Element) :
    (↑(es.flatMap (code .outsideMarkers)) : Multiset Char) = (es.map letters).sum := by
  induction es with
  | nil => rfl
  | cons e es ih =>
    rw [List.flatMap_cons, ← Multiset.coe_add, ih, List.map_cons, List.sum_cons]
    rfl

theorem letters_eq (e : Element) :
    e.letters = ↑(ownCode .outsideMarkers e.kind e.text) + (e.children.map letters).sum +
      textLetters e.tail := by
  rw [letters, code_eq, ← Multiset.coe_add, ← Multiset.coe_add, ← coe_flatMap_code]
  rfl

theorem coe_ownCode {k : Kind} (hk : k ≠ .continuation) (text : String) :
    (↑(ownCode .outsideMarkers k text) : Multiset Char) = textLetters text := by
  have hskip : View.outsideMarkers.skipsText k = false := beq_eq_false_iff_ne.mpr hk
  rw [ownCode, hskip]
  rfl

theorem letters_with_tail (e : Element) (t : String) :
    ({ e with tail := t } : Element).letters + textLetters e.tail = e.letters + textLetters t := by
  rw [letters, letters, code_with_tail, code_eq_content, ← Multiset.coe_add, ← Multiset.coe_add]
  exact add_right_comm _ _ _

/-! ## Keywords and line breaks -/

/-- The characters that one conversion puts in. -/
def keywords : Multiset Char := ↑"THENENDIF".toList

theorem keywords_eq : keywords = ↑"THEN".toList + ↑"ENDIF".toList := by decide

theorem textLetters_thenTail (t : String) :
    textLetters (thenTail t) = textLetters t + ↑"THEN".toList := by
  have hthen : textLetters "THEN" = ↑"THEN".toList := by decide
  have hblank : textLetters " THEN" = ↑"THEN".toList := by decide
  rw [thenTail]
  split
  · rw [textLetters_append, hthen]
  · rw [textLetters_append, hblank]

theorem textLetters_lineBreak (n : Nat) : textLetters (lineBreak n) = 0 := by
  have hblanks : (Text.blanks n).filter isCode = [] :=
    List.filter_eq_nil_iff.mpr fun c hc => by
      rw [List.eq_of_mem_replicate hc]
      decide
  have hread : View.outsideMarkers.read (lineBreak n) = [] := by
    rw [lineBreak, View.read_ofList]
    exact (List.filter_cons_of_neg (by decide)).trans hblanks
  rw [textLetters, hread]
  rfl

theorem letters_ifConstruct (text tail : String) (level : Nat) (os : List Element) (c s : Element) :
    (ifConstruct text tail level os c s).letters =
      (os.map letters).sum + (textLetters text + c.letters + s.letters + ↑"ENDIF".toList) +
        textLetters tail := by
  have hheaderKind : Kind.ofTag "if-then-stmt" ≠ .continuation := by decide
  have hblockKind : Kind.ofTag "if-block" ≠ .continuation := by decide
  have hconstructKind : Kind.ofTag "if-construct" ≠ .continuation := by decide
  have hclosing : ({ tag := "end-if-stmt", text := "END IF" } : Element).letters =
      ↑"ENDIF".toList := by
    decide
  have hheader :
      ({ tag := "if-then-stmt", text := text, tail := lineBreak (level + 2), children := [c] } :
      Element).letters = textLetters text + c.letters := by
    rw [letters_eq, coe_ownCode (by exact hheaderKind), textLetters_lineBreak]
    simp
  have hempty : textLetters "" = 0 := rfl
  rw [ifConstruct, letters_eq, coe_ownCode (by exact hconstructKind), List.map_append,
    List.map_singleton, letters_eq, coe_ownCode (by exact hblockKind)]
  simp only [List.sum_append, List.map_cons, List.map_nil, List.sum_cons,
    List.sum_nil, hclosing, hheader, hempty]
  abel

/-! ## The limit -/

/-- The characters of an element and of the keywords that converting it puts in. -/
def limit (e : Element) : Multiset Char := e.letters + e.conversions • keywords

theorem sum_map_limit (es : List Element) :
    (es.map limit).sum = (es.map letters).sum + (es.map conversions).sum • keywords := by
  induction es with
  | nil => simp
  | cons e es ih =>
    simp only [List.map_cons, List.sum_cons, ih, limit, add_nsmul]
    abel

theorem limit_eq (e : Element) :
    e.limit = ↑(ownCode .outsideMarkers e.kind e.text) + (e.children.map limit).sum +
      textLetters e.tail + (if e.conversion?.isSome then 1 else 0) • keywords := by
  rw [limit, letters_eq, conversions_eq, sum_map_limit, add_nsmul]
  abel

theorem limit_with_tail (e : Element) (t : String) :
    ({ e with tail := t } : Element).limit + textLetters e.tail = e.limit + textLetters t := by
  rw [limit, limit, conversions_with_tail, add_right_comm, letters_with_tail]
  exact add_right_comm _ _ _

theorem limit_eq_zero_iff (e : Element) :
    e.limit = 0 ↔ e.code .outsideMarkers = [] ∧ e.conversions = 0 := by
  have hkeywords : Multiset.card keywords = 9 := by decide
  rw [← Multiset.card_eq_zero, limit, Multiset.card_add, Multiset.card_nsmul, hkeywords, letters,
    Multiset.coe_card, ← List.length_eq_zero_iff]
  omega

theorem sum_map_limit_eq_zero_iff (es : List Element) :
    (es.map limit).sum = 0 ↔ ∀ e ∈ es, e.limit = 0 := by
  induction es with
  | nil => simp
  | cons e es ih => simp [ih]

end Element

/-! ## What conversions leave out -/

namespace IfParts

open Element (textLetters limit limit_eq_zero_iff)

/-- No character of code is left out of the construct that is made of the parts, and no statement
that is itself converted. -/
structure DropsNothing (p : IfParts Element) : Prop where
  action_text : View.outsideMarkers.read p.action.text = []
  action_tail : View.outsideMarkers.read p.action.tail = []
  statement_tail : View.outsideMarkers.read p.statement.tail = []
  dropped : ∀ d ∈ p.dropped, d.code .outsideMarkers = [] ∧ d.conversions = 0

/-- The characters of the parts of a statement that are left out, keywords of conversions in them
included. -/
def lost (p : IfParts Element) : Multiset Char :=
  textLetters p.action.text + textLetters p.action.tail + textLetters p.statement.tail +
    (p.dropped.map limit).sum

theorem lost_eq_zero_iff (p : IfParts Element) : p.lost = 0 ↔ p.DropsNothing := by
  have htext (s : String) : textLetters s = 0 ↔ View.outsideMarkers.read s = [] :=
    Multiset.coe_eq_zero _
  rw [lost, add_eq_zero, add_eq_zero, add_eq_zero, htext, htext, htext,
    Element.sum_map_limit_eq_zero_iff]
  constructor
  · rintro ⟨⟨⟨h₁, h₂⟩, h₃⟩, h₄⟩
    exact ⟨h₁, h₂, h₃, fun d hd => (limit_eq_zero_iff d).mp (h₄ d hd)⟩
  · rintro ⟨h₁, h₂, h₃, h₄⟩
    exact ⟨⟨⟨h₁, h₂⟩, h₃⟩, fun d hd => (limit_eq_zero_iff d).mpr (h₄ d hd)⟩

end IfParts

namespace Element

/-- No conversion in the element leaves out a character of code. -/
def KeepsCode (e : Element) : Prop :=
  ∀ x ∈ e.subelements, ∀ p, x.conversion? = some p → p.DropsNothing

theorem keepsCode_iff (e : Element) :
    e.KeepsCode ↔ (∀ p, e.conversion? = some p → p.DropsNothing) ∧ ∀ c ∈ e.children,
      c.KeepsCode := by
  simp only [KeepsCode]
  rw [subelements_eq, List.forall_mem_cons]
  refine and_congr_right fun _ => ⟨fun h c hc x hx => ?_, fun h x hx => ?_⟩
  · exact h x (List.mem_flatMap.mpr ⟨c, hc, hx⟩)
  · obtain ⟨c, hc, hx⟩ := List.mem_flatMap.mp hx
    exact h c hc x hx

theorem keepsCode_with_tail (e : Element) (t : String) :
    ({ e with tail := t } : Element).KeepsCode ↔ e.KeepsCode := by
  rw [keepsCode_iff, keepsCode_iff, conversion?_with_tail]

theorem keepsCode_of_conversions_eq_zero {e : Element} (h : e.conversions = 0) : e.KeepsCode := by
  intro x hx p hp
  rw [conversions, List.countP_eq_zero] at h
  exact absurd (by rw [hp]; rfl) (h x hx)

/-! ## The balance -/

theorem balanced_of_forall₂ {es es' : List Element} (h : List.Forall₂ Converts es es')
    (ih : ∀ e ∈ es, ∀ e', Converts e e' → Balanced e'.letters e.limit e.KeepsCode) :
    Balanced (es'.map letters).sum (es.map limit).sum (∀ e ∈ es, e.KeepsCode) := by
  induction h with
  | nil => exact (Balanced.refl 0).congr rfl rfl (by simp)
  | @cons e e' es es' he _ ihes =>
    have hhead := ih e List.mem_cons_self e' he
    have htail := ihes fun d hd => ih d (List.mem_cons_of_mem _ hd)
    exact (hhead.add htail).congr (by simp) (by simp) (by simp)

/-- The limit of a converted statement, in the order of the construct; what is left out comes last.
-/
theorem limit_of_conversion {e : Element} {p : IfParts Element} (h : e.conversion? = some p)
    (level : Nat) :
    e.limit =
      textLetters e.text + ↑"ENDIF".toList + textLetters e.tail +
        ({ p.condition with tail := thenTail p.condition.tail } : Element).limit +
        ({ p.statement with tail := lineBreak level } : Element).limit +
        (p.others.map limit).sum + p.lost := by
  obtain ⟨hkind, rest, hparts⟩ := exists_foundIn_of_conversion? h
  have hchildren : (e.children.map limit).sum =
      p.condition.limit + p.action.limit + (p.others.map limit).sum +
        (p.markers.map limit).sum := by
    rw [(hparts.children_perm.map limit).sum_eq]
    simp only [List.map_cons, List.map_append, List.sum_cons, List.sum_append]
    abel
  have haction : p.action.limit =
      textLetters p.action.text + (p.statement.limit + (p.action.children.tail.map limit).sum) +
        textLetters p.action.tail := by
    have hnone := conversion?_of_kind (e := p.action) (by rw [hparts.action_kind]; decide)
    rw [limit_eq, hnone, coe_ownCode (by rw [hparts.action_kind]; decide), hparts.action_children]
    simp
  have hcondition := limit_with_tail p.condition (thenTail p.condition.tail)
  have hstatement := limit_with_tail p.statement (lineBreak level)
  rw [textLetters_thenTail] at hcondition
  rw [textLetters_lineBreak, add_zero] at hstatement
  have hcondition' : ({ p.condition with tail := thenTail p.condition.tail } : Element).limit =
      p.condition.limit + ↑"THEN".toList := by
    refine add_right_cancel (b := textLetters p.condition.tail) (hcondition.trans ?_)
    abel
  rw [limit_eq, h, coe_ownCode (by rw [hkind]; decide), hchildren, haction, ← hstatement,
    hcondition', IfParts.lost, IfParts.dropped, List.map_append, List.sum_append]
  simp only [Option.isSome_some, if_true, one_nsmul, keywords_eq]
  abel

theorem keepsCode_of_conversion {e : Element} {p : IfParts Element} (h : e.conversion? = some p) :
    e.KeepsCode ↔
      ((p.condition.KeepsCode ∧ p.statement.KeepsCode) ∧ ∀ o ∈ p.others, o.KeepsCode) ∧
        p.DropsNothing := by
  obtain ⟨_, rest, hparts⟩ := exists_foundIn_of_conversion? h
  have hchildren : (∀ c ∈ e.children, c.KeepsCode) ↔
      p.condition.KeepsCode ∧ p.action.KeepsCode ∧ (∀ o ∈ p.others, o.KeepsCode) ∧
        ∀ m ∈ p.markers, m.KeepsCode := by
    simp only [hparts.children_perm.mem_iff, List.forall_mem_cons, List.forall_mem_append]
  have haction : p.action.KeepsCode ↔
      p.statement.KeepsCode ∧ ∀ c ∈ p.action.children.tail, c.KeepsCode := by
    have hnone := conversion?_of_kind (e := p.action) (by rw [hparts.action_kind]; decide)
    rw [keepsCode_iff, hnone, hparts.action_children, List.forall_mem_cons]
    simp
  rw [keepsCode_iff, hchildren, haction, h]
  constructor
  · rintro ⟨hdrops, hc, ⟨hs, _⟩, ho, _⟩
    exact ⟨⟨⟨hc, hs⟩, ho⟩, hdrops p rfl⟩
  · rintro ⟨⟨⟨hc, hs⟩, ho⟩, hdrops⟩
    -- What is dropped has no conversion in it, so it cannot lose anything either.
    have hdropped : ∀ d ∈ p.dropped, d.KeepsCode := fun d hd =>
      keepsCode_of_conversions_eq_zero (hdrops.dropped d hd).2
    rw [IfParts.dropped, List.forall_mem_append] at hdropped
    refine ⟨fun q hq => ?_, hc, ⟨hs, hdropped.1⟩, ho, hdropped.2⟩
    rw [Option.some.injEq] at hq
    exact hq ▸ hdrops

/-- The characters after a conversion stay within the limit, and reach it if and only if nothing is
left out. -/
theorem Converts.balanced {e e' : Element} (h : Converts e e') :
    Balanced e'.letters e.limit e.KeepsCode := by
  refine parts_induct (motive := fun e e' => Balanced e'.letters e.limit e.KeepsCode)
    ?keep ?convert h
  case keep =>
    intro e cs hnone hbelow ih
    have hcs := balanced_of_forall₂ hbelow ih
    have hown := Balanced.refl (↑(ownCode .outsideMarkers e.kind e.text) + textLetters e.tail)
    refine (hown.add hcs).congr ?_ ?_ ?_
    · rw [letters_eq]
      exact add_right_comm _ _ _
    · rw [limit_eq, hnone]
      simp only [Option.isSome_none, Bool.false_eq_true, if_false, zero_nsmul, add_zero]
      exact add_right_comm _ _ _
    · rw [keepsCode_iff, hnone]
      simp
  case convert =>
    intro e c s p os level hparts ho hcondition hstatement ih
    have hothers := balanced_of_forall₂ ho ih
    have hlost := (Balanced.zero p.lost).congr rfl rfl p.lost_eq_zero_iff
    have hown := Balanced.refl (textLetters e.text + ↑"ENDIF".toList + textLetters e.tail)
    refine ((((hown.add hcondition).add hstatement).add hothers).add hlost).congr ?_ ?_ ?_
    · rw [letters_ifConstruct]
      abel
    · exact (limit_of_conversion hparts level).symm
    · rw [keepsCode_of_conversion hparts, keepsCode_with_tail, keepsCode_with_tail, true_and]

end Element

end FortranLayout
