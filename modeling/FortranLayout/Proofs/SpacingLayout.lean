import FortranLayout.Proofs.Relaid
import FortranLayout.Spacing.Pass

/-!
# The spacing pass changes blanks only

Every edit of the four rounds keeps the text of a node up to blanks and its tail up to blanks and
tabs, and no round changes the shape of the tree (`SpacingRules.relaid_apply`).
-/

namespace FortranLayout

namespace Text

/-- Whether `c` is neither a blank nor a tab: what spacing keeps in tails. -/
def isInk (c : Char) : Bool := !isBlank c && c != '\t'

/-- An edit of a text that changes blanks only. -/
def OnlyBlanks (g : List Char → List Char) : Prop := ∀ s, squeeze (g s) = squeeze s

theorem OnlyBlanks.filter_isInk {g : List Char → List Char} (h : OnlyBlanks g) (s : List Char) :
    (g s).filter isInk = s.filter isInk :=
  Forest.Relaid.filter_mono (fun _ hc => (Bool.and_eq_true _ _ ▸ hc).1) (h s)

theorem OnlyBlanks.comp {g g' : List Char → List Char} (h : OnlyBlanks g) (h' : OnlyBlanks g') :
    OnlyBlanks fun s => g (g' s) :=
  fun s => (h (g' s)).trans (h' s)

theorem onlyBlanks_everywhere (p : Pattern) : OnlyBlanks p.everywhere := p.squeeze_everywhere

theorem Pattern.onlyBlanks_atStart (p : Pattern) : OnlyBlanks p.atStart := by
  intro s
  rw [Pattern.atStart]
  split
  · rename_i written rest h
    rw [squeeze_append, Pattern.squeeze_read h]
  · rfl

theorem onlyBlanks_squeeze : OnlyBlanks squeeze := by
  intro s
  simp [squeeze]

theorem expandTabs_cons (c : Char) (s : List Char) :
    expandTabs (c :: s) = (if c = '\t' then blanks 2 else [c]) ++ expandTabs s := rfl

theorem filter_isInk_expandTabs (s : List Char) : (expandTabs s).filter isInk = s.filter isInk := by
  induction s with
  | nil => rfl
  | cons c s ih =>
    rw [expandTabs_cons, List.filter_append, ih]
    by_cases hc : c = '\t'
    · subst hc
      rfl
    · rw [if_neg hc, ← List.filter_append, List.singleton_append]

end Text

namespace Gaps

open Text (OnlyBlanks onlyBlanks_everywhere)

theorem onlyBlanks_beforeParentheses (n : Nat) : OnlyBlanks (beforeParentheses n) :=
  (onlyBlanks_everywhere _).comp (onlyBlanks_everywhere _)

theorem onlyBlanks_afterParentheses (n : Nat) : OnlyBlanks (afterParentheses n) :=
  (onlyBlanks_everywhere _).comp (onlyBlanks_everywhere _)

theorem onlyBlanks_declDelim (r : SpacingRules) : OnlyBlanks (declDelim r) := by
  intro s
  rw [declDelim]
  cases r.inDeclDelim <;> cases r.beforeDeclDelim <;> cases r.afterDeclDelim <;>
    simp [Text.Pattern.squeeze_everywhere]

end Gaps

/-- The store after a step of the spacing pass has the nodes of the store before it, up to blanks in
texts and blanks and tabs in tails. -/
def Draft.Respaced (d d' : Draft) : Prop :=
  Forest.Relaid (fun c => !Text.isBlank c) Text.isInk d.forest d'.forest

namespace Draft

open Text (OnlyBlanks)

variable {d d' d'' : Draft} {i : Nat}

theorem Respaced.refl (d : Draft) : d.Respaced d := Forest.Relaid.refl _ _ _

theorem Respaced.trans (h₁ : d.Respaced d') (h₂ : d'.Respaced d'') : d.Respaced d'' :=
  Forest.Relaid.trans h₁ h₂

theorem respaced_foldl {α : Type} {step : Draft → α → Draft}
    (h : ∀ (d : Draft) x, d.Respaced (step d x))
    (xs : List α) (d : Draft) : d.Respaced (xs.foldl step d) :=
  relaid_foldl h xs d

theorem respaced_editTail {g : List Char → List Char} (hg : OnlyBlanks g) (d : Draft) (i : Nat) :
    d.Respaced (d.editTail i g) :=
  relaid_editTail hg.filter_isInk d i

theorem respaced_editText {g : List Char → List Char} (hg : OnlyBlanks g) (d : Draft) (i : Nat) :
    d.Respaced (d.editText i g) :=
  relaid_editText hg d i

theorem respaced_editCode {g : List Char → List Char} (hg : OnlyBlanks g) (d : Draft) (i : Nat) :
    d.Respaced (d.editCode i g) := by
  rw [editCode]
  split
  · exact respaced_editTail hg d i
  · exact (respaced_editTail hg d i).trans (respaced_editText hg _ i)

variable {g : Nat → List Char → List Char}

theorem respaced_fitTail (hg : ∀ n, OnlyBlanks (g n)) (d : Draft) (i : Nat) (w : Width) :
    d.Respaced (d.fitTail i w g) := by
  cases w with
  | keep => exact .refl d
  | exactly n => exact respaced_editTail (hg n) d i

theorem respaced_fitText (hg : ∀ n, OnlyBlanks (g n)) (d : Draft) (i : Nat) (w : Width) :
    d.Respaced (d.fitText i w g) := by
  cases w with
  | keep => exact .refl d
  | exactly n => exact respaced_editText (hg n) d i

theorem respaced_fitCode (hg : ∀ n, OnlyBlanks (g n)) (d : Draft) (i : Nat) (w : Width) :
    d.Respaced (d.fitCode i w g) := by
  cases w with
  | keep => exact .refl d
  | exactly n => exact respaced_editCode (hg n) d i

end Draft

namespace SpacingRules

open Text (onlyBlanks_everywhere onlyBlanks_squeeze squeeze_leadWith squeeze_endWith
  squeeze_shiftRight squeeze_strip)
open Draft

variable (r : SpacingRules) (d : Draft) (i : Nat)

/-! ## First round -/

theorem respaced_punctuation : d.Respaced (r.punctuation d i) := by
  have htabs : d.Respaced (if r.expandTabs then d.editTail i Text.expandTabs else d) := by
    split
    · exact relaid_editTail Text.filter_isInk_expandTabs d i
    · exact .refl d
  have hcommas := (((htabs.trans (respaced_fitCode Gaps.onlyBlanks_beforeParentheses _ i
    r.beforeParenthesis)).trans (respaced_fitCode Gaps.onlyBlanks_afterParentheses _ i
    r.afterParenthesis)).trans
      (respaced_fitCode (fun n => onlyBlanks_everywhere (Gaps.before ',' n))
    _ i r.beforeComma)).trans (respaced_fitCode (fun n => onlyBlanks_everywhere (Gaps.after ',' n))
    _ i r.afterComma)
  rw [punctuation]
  split
  · exact hcommas.trans (respaced_editTail (onlyBlanks_everywhere _) _ i)
  · exact hcommas

theorem respaced_equalSign (before after : Width) : d.Respaced (equalSign d i before after) :=
  (respaced_fitTail (fun n => onlyBlanks_everywhere (Gaps.before '=' n)) d i before).trans
    (respaced_fitTail (fun n => onlyBlanks_everywhere (Gaps.after '=' n)) _ i after)

theorem respaced_nameGaps : d.Respaced (r.nameGaps d i) := by
  rw [nameGaps]
  refine Respaced.trans ?_ (respaced_fitTail squeeze_leadWith _ i _)
  split
  · exact respaced_foldl (fun d part => respaced_editTail squeeze_strip d part) _ d
  · exact .refl d

theorem respaced_separatorGaps : d.Respaced (r.separatorGaps d i) := by
  rw [separatorGaps]
  refine Respaced.trans ?_ (respaced_fitTail squeeze_endWith _ i _)
  split
  · exact respaced_fitTail squeeze_leadWith d _ _
  · exact .refl d

theorem respaced_associationGaps : d.Respaced (r.associationGaps d i) := by
  have harrow := (respaced_fitTail (fun n => onlyBlanks_everywhere (Gaps.before '=' n)) d i
    r.beforeAffectation).trans (respaced_fitTail (fun n => onlyBlanks_everywhere (Gaps.after '>' n))
    _ i r.afterAffectation)
  rw [associationGaps]
  split
  · exact harrow.trans (respaced_editTail (onlyBlanks_everywhere _) _ i)
  · exact harrow

theorem respaced_keywordGap : d.Respaced (r.keywordGap d i) := by
  rw [keywordGap]
  split
  · exact .refl d
  · split
    · split
      · exact respaced_editText (Text.Pattern.onlyBlanks_atStart _) d i
      · exact .refl d
    · exact .refl d

theorem respaced_kindGaps : d.Respaced (r.kindGaps d i) := by
  rw [kindGaps]
  split
  iterate 3 exact r.respaced_nameGaps d i
  · split
    · exact (respaced_fitTail squeeze_leadWith d i _).trans (respaced_fitTail squeeze_endWith _ i _)
    · exact .refl d
  · split
    · exact (respaced_fitTail (fun n => onlyBlanks_everywhere (Gaps.before ':' n)) d i _).trans
        (respaced_fitTail (fun n => onlyBlanks_everywhere (Gaps.after ':' n)) _ i _)
    · exact .refl d
  · exact respaced_editTail (Gaps.onlyBlanks_declDelim r) d i
  · exact (respaced_editTail (Gaps.onlyBlanks_declDelim r) d i).trans
      (respaced_fitTail squeeze_endWith _ i _)
  · dsimp only
    split
    · exact .refl d
    · split
      · exact respaced_editText (Gaps.onlyBlanks_declDelim r) d i
      · exact respaced_fitText squeeze_endWith d i _
  iterate 2
    split
    · exact respaced_fitText squeeze_endWith d i _
    · exact .refl d
  iterate 5
    split
    · exact respaced_equalSign d i _ _
    · exact .refl d
  · exact r.respaced_separatorGaps d i
  · split
    · exact r.respaced_associationGaps d i
    · exact .refl d
  · exact r.respaced_keywordGap d i

theorem respaced_firstRound : d.Respaced (r.firstRound d i) :=
  (r.respaced_punctuation d i).trans (r.respaced_kindGaps _ i)

/-! ## Second round -/

theorem respaced_aroundChildren (kind : Kind) (before after : Width) :
    d.Respaced (aroundChildren d i kind before after) := by
  refine respaced_foldl (fun d x => ?_) _ d
  obtain ⟨previous, child⟩ := x
  dsimp only
  split
  · refine Respaced.trans ?_ (respaced_fitTail squeeze_shiftRight _ child after)
    cases previous with
    | none => exact .refl d
    | some p => exact respaced_fitTail squeeze_endWith d p before
  · exact .refl d

theorem respaced_operators : d.Respaced (r.operators d i) := by
  rw [operators]
  refine (respaced_aroundChildren d i .op r.beforeOp r.afterOp).trans ?_
  split
  · exact respaced_foldl (fun d _ =>
      respaced_foldl (fun d part => respaced_editTail squeeze_strip d part) _ d) _ _
  · exact .refl _

theorem respaced_affectations : d.Respaced (r.affectations d i) := by
  rw [affectations]
  refine (respaced_aroundChildren d i .affectation r.beforeAffectation r.afterAffectation).trans ?_
  split
  · exact respaced_foldl (fun d sign => respaced_editText onlyBlanks_squeeze d sign) _ _
  · exact .refl _

theorem respaced_actionGap (part : Kind) : d.Respaced (r.actionGap d i part) := by
  rw [actionGap]
  split
  · exact respaced_fitTail (fun n => onlyBlanks_everywhere (Gaps.closingAtEnd n)) d _ _
  · exact .refl d

theorem respaced_conditionalKeyword : d.Respaced (r.conditionalKeyword d i) := by
  rw [conditionalKeyword]
  split
  · split
    · exact respaced_fitText squeeze_endWith d i _
    · exact .refl d
  · exact respaced_fitText (fun n => Text.Pattern.squeeze_once (Gaps.before '(' n)) d i _

theorem respaced_conditional : d.Respaced (r.conditional d i) := by
  have h := r.respaced_conditionalKeyword d i
  unfold conditional
  dsimp only
  revert h
  generalize r.conditionalKeyword d i = d'
  intro h
  refine h.trans ?_
  split
  iterate 2
    split
    · exact respaced_fitTail (fun n => onlyBlanks_everywhere (Gaps.closingThenWord n)) d' _ _
    · exact .refl d'
  iterate 3 exact r.respaced_actionGap d' i _
  · exact .refl d'

theorem respaced_secondRound : d.Respaced (r.secondRound d i) := by
  rw [secondRound]
  split
  · exact r.respaced_operators d i
  iterate 2 exact r.respaced_affectations d i
  iterate 10 exact r.respaced_conditional d i
  · exact .refl d

/-! ## Third and fourth round -/

theorem respaced_markerGap (previous : Option NodeId) (marker : Nat) :
    d.Respaced (r.markerGap d i previous marker) := by
  cases previous with
  | none =>
    rw [markerGap]
    split
    · split
      · exact .refl d
      · exact respaced_fitTail squeeze_leadWith d marker _
    · exact respaced_fitText squeeze_endWith d i _
  | some p =>
    rw [markerGap]
    split
    · split
      · exact .refl d
      · exact respaced_fitTail squeeze_leadWith d marker _
    · exact respaced_fitTail squeeze_endWith d p _

theorem respaced_thirdRound : d.Respaced (r.thirdRound d i) := by
  refine respaced_foldl (fun d x => ?_) _ d
  obtain ⟨previous, child⟩ := x
  dsimp only
  split
  · exact r.respaced_markerGap d i previous child
  · exact .refl d

theorem respaced_fourthRound (order : List NodeId) (entry : AdjacentKeyword) :
    d.Respaced (r.fourthRound order d entry) := by
  rw [fourthRound]
  split
  · refine respaced_foldl (fun d i => ?_) _ d
    split
    · exact respaced_editText (onlyBlanks_everywhere _) d i
    · exact .refl d
  · exact .refl d

/-- Spacing changes nothing but blanks in texts and blanks and tabs in tails. -/
theorem relaid_apply (f : Forest) :
    Forest.Relaid (fun c => !Text.isBlank c) Text.isInk f (r.apply f).forest := by
  exact (Forest.Relaid.indexed f).trans <| Respaced.trans (Respaced.trans (Respaced.trans
    (respaced_foldl r.respaced_firstRound f.preorder { forest := f.indexed })
    (respaced_foldl r.respaced_secondRound _ _)) (respaced_foldl r.respaced_thirdRound _ _))
    (respaced_foldl (fun d entry => r.respaced_fourthRound d f.preorder entry) _ _)

end SpacingRules

theorem updateSpacing_eq_ok {r : SpacingRules} {f : Forest} {d : Draft}
    (h : updateSpacing r f = .ok d) : d = r.apply f := by
  unfold updateSpacing at h
  cases hv : r.validate with
  | error fault => simp [hv, bind, Except.bind] at h
  | ok _ =>
    simp only [hv, bind, Except.bind, pure, Except.pure, Except.ok.injEq] at h
    exact h.symm

/-- Spacing that succeeds keeps the nodes, and in each slot of a node everything but blanks and
tabs. -/
theorem updateSpacing_slots {r : SpacingRules} {f : Forest} {d : Draft}
    (h : updateSpacing r f = .ok d) :
    d.forest.size = f.size ∧ ∀ i,
      d.forest.tag i = f.tag i ∧ d.forest.kind i = f.kind i ∧
      d.forest.children i = f.children i ∧
      Text.squeeze (d.forest.text i).toList = Text.squeeze (f.text i).toList ∧
      (d.forest.tail i).toList.filter Text.isInk = (f.tail i).toList.filter Text.isInk := by
  rw [updateSpacing_eq_ok h]
  have hr := r.relaid_apply f
  refine ⟨hr.size_eq, fun i => ⟨hr.tag_eq i, ?_, hr.children_eq i, hr.text_eq i, hr.tail_eq i⟩⟩
  exact congrArg Kind.ofTag (hr.tag_eq i)

/-- A declaration with loose blanks and a tab, ended by a separator. -/
def looseDeclaration : Element where
  tag := "file"
  children :=
    [{ tag := "T-decl-stmt"
       tail := " "
       children :=
        [{ tag := "_T-spec_", text := "REAL", tail := " \t: :X( 1 ,2)" }] },
     { tag := "smc", text := ";", tail := "\n" }]

theorem updateSpacing_slots_looseDeclaration :
    let d := SpacingRules.apply {} (Forest.ofElement looseDeclaration)
    updateSpacing {} (Forest.ofElement looseDeclaration) = .ok d ∧
      d.forest.tail 2 = " :: X(1, 2) " ∧
      (d.forest.tail 2).toList.filter Text.isInk =
        ((Forest.ofElement looseDeclaration).tail 2).toList.filter Text.isInk :=
  have h : updateSpacing {} (Forest.ofElement looseDeclaration) =
      .ok (SpacingRules.apply {} (Forest.ofElement looseDeclaration)) := rfl
  ⟨h, by decide +kernel, ((updateSpacing_slots h).2 2).2.2.2.2⟩

end FortranLayout
