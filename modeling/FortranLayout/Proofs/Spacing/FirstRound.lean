import FortranLayout.Proofs.Spacing.Settles

/-!
# The first round acts on the gaps

Punctuation is spaced at every node, then each node by its kind. A node is reached with the tabs of
the nodes before it expanded and those of the nodes after it pending; the only rule that edits the
tail of a later node is that which joins the parts of a name.
-/

namespace FortranLayout

open Text (spread squeeze Spares Steady ArrowGaps leadWith endWith strip)

namespace SpacingRules

open SpacingFrame

variable {w : SpacingFrame} {pending : List NodeId} {i : NodeId}

theorem acts_punctuation (htab : w.rules.expandTabs = true → '\t' ∉ w.skeleton (.tail i))
    (hpending : w.rules.expandTabs = false → i ∉ pending) :
    w.Acts pending (pending.filter (· ≠ i)) fun d => w.rules.punctuation d i := by
  have hp : i ∉ pending.filter (· ≠ i) := by simp
  have htabs : w.Acts pending (pending.filter (· ≠ i)) fun d =>
      if w.rules.expandTabs then d.editTail i Text.expandTabs else d := by
    cases h : w.rules.expandTabs with
    | true => exact acts_expandTabs i (htab h)
    | false =>
      have hsame : pending.filter (· ≠ i) = pending := by
        refine List.filter_eq_self.mpr fun j hj => ?_
        have hji : j ≠ i := fun e => hpending h (e ▸ hj)
        simpa using hji
      rw [hsame]
      exact .id w pending
  have hbefore := acts_fitCode w.rules.beforeParenthesis hp
    (Text.steady_beforeParentheses (w.inked _) (spares_tail (by decide))
      (spares_tail (by decide)))
    (Text.steady_beforeParentheses (w.inked _) (spares_text (by decide)) (spares_text (by decide)))
  have hafter := acts_fitCode w.rules.afterParenthesis hp
    (Text.steady_afterParentheses (w.inked _) (spares_tail (by decide))
      (spares_tail (by decide)))
    (Text.steady_afterParentheses (w.inked _) (spares_text (by decide)) (spares_text (by decide)))
  have hbeforeComma := acts_fitCode w.rules.beforeComma hp
    (steadyAt_tail_before (c := ',') (by decide) (by decide))
    (Text.steady_before (w.inked _) (by decide) fun k hk => (spares_text (by decide) k hk).1)
  have hafterComma := acts_fitCode w.rules.afterComma hp
    (Text.steady_after (c := ',') (w.inked _) (by decide) (spares_tail (by decide)))
    (Text.steady_after (w.inked _) (by decide) (spares_text (by decide)))
  have hline : w.Acts (pending.filter (· ≠ i)) (pending.filter (· ≠ i)) fun d =>
      if w.rules.endOfLine then d.editTail i (Gaps.before '\n' 0).everywhere else d :=
    Acts.when fun _ => acts_editTail hp (steadyAt_tail_before (by decide) (by decide) 0)
  exact ((((htabs.comp hbefore).comp hafter).comp hbeforeComma).comp hafterComma).comp hline

/-- The blanks around equals signs where nothing is frozen. -/
theorem acts_equalSign (hp : i ∉ pending) (hfree : ∀ k, ¬ w.frozen (.tail i) k)
    (before after : Width) :
    w.Acts pending pending fun d => equalSign d i before after :=
  (acts_fitTail before hp fun n _ =>
      Text.steady_before (w.inked _) (by decide) (fun k hk => absurd hk (hfree k)) n).comp
    (acts_fitTail after hp fun n _ =>
      Text.steady_after (w.inked _) (by decide) (fun k hk => absurd hk (hfree k)) n)

/-- The blanks around the equals signs of initial values, which are no arrows and become none. -/
theorem acts_equalSign_init (hp : i ∉ pending)
    (hk : w.forest.kind i = .enumeratorName ∨ w.forest.kind i = .namedConstant)
    (harrow : Gaps.hasArrow (w.content (.tail i)) = false)
    (hzero : w.rules.afterEqInit = .exactly 0 → Gaps.hasArrow (w.skeleton (.tail i)) = false) :
    w.Acts pending pending fun d => equalSign d i w.rules.beforeEqInit w.rules.afterEqInit := by
  have hgaps : ∀ k, w.frozen (.tail i) k → ArrowGaps (w.skeleton (.tail i)) k := by
    rintro k (⟨_, h⟩ | ⟨hthen, _⟩)
    · exact h
    · rw [hthen.kind_eq] at hk
      simp at hk
  refine (acts_fitTail _ hp fun n _ => ?_).comp (acts_fitTail _ hp fun n hn => ?_)
  · refine Text.steady_before (w.inked _) (by decide) (fun k hk x hx => ?_) n
    obtain ⟨j, _, y, rfl, _, hy, _, rfl⟩ := hgaps k hk
    obtain rfl : '>' = x := Option.some.inj (hy.symm.trans hx)
    decide
  · rcases Nat.eq_zero_or_pos n with rfl | hpos
    · -- There is nothing frozen: not even without blanks would there be an arrow.
      have hnone := hzero hn
      rw [← Text.spread_zero (w.skeleton (.tail i)), Bool.eq_false_iff, ne_eq,
        Text.hasArrow_spread] at hnone
      exact Text.steady_after (w.inked _) (by decide)
        (fun k hk => absurd ⟨k, hgaps k hk, rfl⟩ hnone) 0
    · refine Text.steady_after_of_pos (w.inked _) (by decide) hpos fun k hk h0 => ?_
      rw [← w.spread_gaps, Bool.eq_false_iff, ne_eq, Text.hasArrow_spread] at harrow
      exact harrow ⟨k, hgaps k hk, h0⟩

theorem acts_nameGaps (hp : i ∉ pending)
    (hparts : w.rules.inName = true → ∀ c ∈ w.forest.children i,
      w.forest.kind c = .namePart → c ∉ pending) :
    w.Acts pending pending fun d => w.rules.nameGaps d i := by
  have hjoin : w.Acts pending pending fun d => if w.rules.inName then
      (childrenOfKind d i .namePart).foldl (fun d part => d.editTail part strip) d else d := by
    refine Acts.when fun h => acts_childrenOfKind fun part hmem hkind => ?_
    have hfree : ∀ k, ¬ w.frozen (.tail part) k := fun k =>
      not_frozen_tail (by simp [hkind]) (by simp [hkind]) (by simp [hkind])
    exact acts_editTail (hparts h part hmem hkind) (Steady.strip (w.inked _) (hfree _) (hfree _))
  exact hjoin.comp (acts_fitTail _ hp fun n _ => steadyAt_leadWith n)

theorem acts_beforeSeparator (hprevious : ∀ p, w.forest.previousSibling? i = some p → p ∉ pending) :
    w.Acts pending pending fun d => match d.forest.previousSibling? i with
      | some previous => d.fitTail previous w.rules.beforeSeparator leadWith
      | none => d := by
  cases h : w.forest.previousSibling? i with
  | none =>
    refine (Acts.id w pending).congr fun γ d hd => ?_
    rw [hd.shape.previousSibling?_eq, h]
  | some p =>
    refine
      (acts_fitTail w.rules.beforeSeparator (hprevious p h) fun n _ => steadyAt_leadWith n).congr
      fun γ d hd => ?_
    rw [hd.shape.previousSibling?_eq, h]

theorem acts_separatorGaps (hk : w.forest.kind i = .separator) (hp : i ∉ pending)
    (hprevious : ∀ p, w.forest.previousSibling? i = some p → p ∉ pending) :
    w.Acts pending pending fun d => w.rules.separatorGaps d i :=
  (acts_beforeSeparator hprevious).comp
    (acts_fitTail _ hp fun n _ => steadyAt_endWith_of_kind (by simp [hk]) n)

theorem acts_associationGaps (hp : i ∉ pending) (hfree : ∀ k, ¬ w.frozen (.tail i) k) :
    w.Acts pending pending fun d => w.rules.associationGaps d i := by
  have hspares (c : Char) : Spares (w.frozen (.tail i)) (w.skeleton (.tail i)) c :=
    fun k hk => absurd hk (hfree k)
  have hjoin : w.Acts pending pending fun d =>
      if w.rules.inAffectation then d.editTail i (Gaps.joined '=' '>').everywhere else d :=
    Acts.when fun _ => acts_editTail hp
      (Text.steady_joined (w.inked _) (by decide) (by decide) (hspares _) (hspares _))
  exact ((acts_fitTail _ hp fun n _ =>
      Text.steady_before (w.inked _) (by decide) (fun k hk => absurd hk (hfree k)) n).comp
    (acts_fitTail _ hp fun n _ =>
      Text.steady_after (w.inked _) (by decide) (hspares _) n)).comp hjoin

theorem acts_keywordGap (hv : w.rules.validate = .ok ()) :
    w.Acts pending pending fun d => w.rules.keywordGap d i := by
  cases hentry : AfterKeyword.forKind? (w.forest.kind i) with
  | none =>
    refine (Acts.id w pending).congr fun γ d hd => ?_
    rw [keywordGap, hd.shape.kind_eq, hentry]
  | some entry =>
    obtain ⟨hmem, hkind⟩ := AfterKeyword.of_forKind? hentry
    cases hcount : w.rules.afterKeywords.count? entry.key entry.standard with
    | none =>
      refine (Acts.id w pending).congr fun γ d hd => ?_
      rw [keywordGap, hd.shape.kind_eq, hentry]
      dsimp only
      rw [hcount]
    | some n =>
      have hedit : w.Acts pending pending fun d =>
          if d.forest.hasChildren i then d.editText i (entry.apply n) else d := by
        refine Acts.ite (fun γ d hd => hd.shape.hasChildren_eq i) (fun _ => acts_editText ?_)
          fun _ => .id w pending
        exact AfterKeyword.steady_apply hmem (w.inked _)
          (fun p hp => mem_keywordPairs.mpr (Or.inr ⟨entry, hentry, hp⟩))
          (fun p hp => (isLower_of_mem_keywordPairs hp).2)
          (AfterKeyword.last_of_keywordPairs hentry
            (AfterKeyword.least_le_of_validate hv hmem hcount))
      refine hedit.congr fun γ d hd => ?_
      rw [keywordGap, hd.shape.kind_eq, hentry]
      dsimp only
      rw [hcount]

/-- A step that is taken if the tail of its node has a given character. -/
theorem acts_ite_contains {step : Draft → Draft} {c : Char} (hi : i < w.forest.size)
    (hp : i ∉ pending) (hc : Text.isBlank c = false) (h : w.Acts pending pending step) :
    w.Acts pending pending fun d => if (d.forest.tail i).toList.contains c then step d else d :=
  Acts.ite (fun _ _ hd => hd.contains_tail hi hp hc) (fun _ => h) fun _ => .id w pending

/-- Editing a text unless it is empty. -/
theorem editText_of_ne_nil (d : Draft) (i : NodeId) (g : List Char → List Char) :
    (d.editText i fun s => if s.isEmpty then s else g s) =
      if (d.forest.text i).toList.isEmpty then d else d.editText i g := by
  by_cases h : (d.forest.text i).toList.isEmpty = true
  · simp only [Draft.editText, h, if_true, String.ofList_toList]
  · simp only [Draft.editText, h, Bool.false_eq_true, if_false]

theorem acts_enumerator (hi : i < w.forest.size) :
    w.Acts pending pending fun d =>
      if (d.forest.text i).toList.isEmpty then d
      else if (d.forest.text i).toList.contains ':' then d.editText i (Gaps.declDelim w.rules)
      else d.fitText i w.rules.afterTypeDecl endWith := by
  have hread (γ d) (hd : w.Admits pending γ d) :
      (d.forest.text i).toList.contains ':' = (w.skeleton (.text i)).contains ':' :=
    hd.contains_text hi (by decide)
  have hdelim : w.Acts pending pending fun d => d.editText i (Gaps.declDelim w.rules) :=
    acts_editText (Text.steady_declDelim (w.inked _) (spares_text (by decide)) w.rules)
  have hend : w.Acts pending pending fun d =>
      if (d.forest.text i).toList.isEmpty then d
        else d.fitText i w.rules.afterTypeDecl endWith := by
    cases w.rules.afterTypeDecl with
    | keep => exact (Acts.id w pending).congr fun γ d _ => by simp [Draft.fitText]
    | exactly n =>
      have hedit : w.Acts pending pending fun d =>
          d.editText i fun s => if s.isEmpty then s else endWith n s :=
        acts_editText (Steady.endWith_of_ne_nil (w.inked _) not_frozen_text_last n)
      refine hedit.congr fun γ d _ => ?_
      rw [editText_of_ne_nil, Draft.fitText]
  cases hcolon : (w.skeleton (.text i)).contains ':' with
  | true =>
    -- A text with a colon is not empty.
    refine hdelim.congr fun γ d hd => ?_
    have hcontains := (hread γ d hd).trans hcolon
    have hmem : ':' ∈ (d.forest.text i).toList := by simpa using hcontains
    rw [if_neg (by simpa using List.ne_nil_of_mem hmem), if_pos hcontains]
  | false =>
    refine hend.congr fun γ d hd => ?_
    rw [if_neg (c := (d.forest.text i).toList.contains ':' = true)]
    rw [hread γ d hd, hcolon]
    exact Bool.false_ne_true

theorem acts_declDelim (hp : i ∉ pending) :
    w.Acts pending pending fun d => d.editTail i (Gaps.declDelim w.rules) :=
  acts_editTail hp (Text.steady_declDelim (w.inked _) (spares_tail (by decide)) w.rules)

/-- The blanks around the colon of a range, with nothing else before or after it in the tail. -/
theorem acts_rangeDelim (hk : w.forest.kind i = .lowerBound) (hp : i ∉ pending) :
    w.Acts pending pending fun d =>
      (d.fitTail i w.rules.beforeRangeDelim leadWith).fitTail i w.rules.afterRangeDelim endWith :=
  (acts_fitTail _ hp fun n _ => steadyAt_leadWith n).comp
    (acts_fitTail _ hp fun n _ => steadyAt_endWith_of_kind (by simp [hk]) n)

/-- The blanks around the colon after the name of a module. -/
theorem acts_useDelim (hp : i ∉ pending) :
    w.Acts pending pending fun d =>
      (d.fitTail i w.rules.beforeUseDelim fun n => (Gaps.before ':' n).everywhere).fitTail i
        w.rules.afterUseDelim fun n => (Gaps.after ':' n).everywhere :=
  (acts_fitTail _ hp fun n _ => steadyAt_tail_before (c := ':') (by decide) (by decide) n).comp
    (acts_fitTail _ hp fun n _ => Text.steady_after (c := ':') (w.inked _) (by decide)
      (spares_tail (by decide)) n)

/-- The blanks after the keyword of a unit, where its name follows. -/
theorem acts_unitKeyword :
    w.Acts pending pending fun d =>
      if d.forest.hasChildren i then d.fitText i w.rules.afterProgramUnit endWith else d :=
  Acts.ite (fun _ _ hd => hd.shape.hasChildren_eq i)
    (fun _ => acts_fitText _ fun n _ => steadyAt_text_endWith n) fun _ => .id w pending

/-- The blanks around the equals sign of an initial value, unless it is an arrow. -/
theorem acts_initValue (hi : i < w.forest.size) (hp : i ∉ pending)
    (hk : w.forest.kind i = .enumeratorName ∨ w.forest.kind i = .namedConstant)
    (harrows : w.rules.afterEqInit = .exactly 0 → Gaps.hasArrow (w.skeleton (.tail i)) = true →
      Gaps.hasArrow (w.content (.tail i)) = true) :
    w.Acts pending pending fun d =>
      if (d.forest.tail i).toList.contains '=' && !Gaps.hasArrow (d.forest.tail i).toList then
        equalSign d i w.rules.beforeEqInit w.rules.afterEqInit
      else d := by
  refine Acts.ite
    (fun γ d hd => congrArg₂ (fun b b' => b && !b') (hd.contains_tail hi hp (by decide))
    (hd.hasArrow_tail hi hp hk)) (fun h => ?_) fun _ => .id w pending
  have harrow : Gaps.hasArrow (w.content (.tail i)) = false := by
    simp only [Bool.and_eq_true, Bool.not_eq_true'] at h
    exact h.2
  refine acts_equalSign_init hp hk harrow fun hzero => ?_
  by_contra hskeleton
  rw [harrows hzero (by simpa using hskeleton)] at harrow
  cases harrow

theorem acts_kindGaps (hv : w.rules.validate = .ok ()) (hi : i < w.forest.size) (hp : i ∉ pending)
    (hparts : w.rules.inName = true → (w.forest.kind i).isJoined = true → ∀ c ∈ w.forest.children i,
      w.forest.kind c = .namePart → c ∉ pending)
    (hprevious : ∀ p, w.forest.previousSibling? i = some p → p ∉ pending)
    (harrows : w.rules.afterEqInit = .exactly 0 →
      w.forest.kind i = .enumeratorName ∨ w.forest.kind i = .namedConstant →
      Gaps.hasArrow (w.skeleton (.tail i)) = true → Gaps.hasArrow (w.content (.tail i)) = true) :
    w.Acts pending pending fun d => w.rules.kindGaps d i := by
  have hname (h : (w.forest.kind i).isJoined = true) := acts_nameGaps hp fun hin => hparts hin h
  have hequals (before after : Width) (hfree : ∀ k, ¬ w.frozen (.tail i) k) :=
    acts_ite_contains (c := '=') hi hp (by decide) (acts_equalSign hp hfree before after)
  have hinit (hk) := acts_initValue hi hp hk fun hzero => harrows hzero hk
  -- What `kindGaps` does is read off the kind in the frame, which is that in each draft of it.
  have hread {step : Draft → Draft} (h : w.Acts pending pending step)
      (heq : ∀ d, d.forest.kind i = w.forest.kind i → w.rules.kindGaps d i = step d) :
      w.Acts pending pending fun d => w.rules.kindGaps d i :=
    h.congr fun γ d hd => heq d (hd.shape.kind_eq i)
  cases hk : w.forest.kind i with
  | name => exact hread (hname (by rw [hk]; rfl)) fun d hd => by simp only [kindGaps, hd, hk]
  | typeName => exact hread (hname (by rw [hk]; rfl)) fun d hd => by simp only [kindGaps, hd, hk]
  | attributeName =>
    exact hread (hname (by rw [hk]; rfl)) fun d hd => by simp only [kindGaps, hd, hk]
  | lowerBound =>
    exact hread (acts_ite_contains (c := ':') hi hp (by decide) (acts_rangeDelim hk hp))
      fun d hd => by simp only [kindGaps, hd, hk]
  | moduleName =>
    exact hread (acts_ite_contains (c := ':') hi hp (by decide) (acts_useDelim hp))
      fun d hd => by simp only [kindGaps, hd, hk]
  | attributeSpec => exact hread (acts_declDelim hp) fun d hd => by simp only [kindGaps, hd, hk]
  | typeSpec =>
    refine hread ((acts_declDelim hp).comp (acts_fitTail w.rules.afterTypeDecl hp fun n _ =>
      steadyAt_endWith_of_kind (by simp [hk]) n)) fun d hd => ?_
    simp only [kindGaps, hd, hk]
  | enumeratorStmt => exact hread (acts_enumerator hi) fun d hd => by simp only [kindGaps, hd, hk]
  | unitStmt => exact hread (acts_unitKeyword (i := i)) fun d hd => by simp only [kindGaps, hd, hk]
  | endUnitStmt =>
    exact hread (acts_unitKeyword (i := i)) fun d hd => by simp only [kindGaps, hd, hk]
  | doVar =>
    refine hread (hequals w.rules.beforeEqDo w.rules.afterEqDo fun k =>
      not_frozen_tail (by simp [hk]) (by simp [hk]) (by simp [hk])) fun d hd => ?_
    simp only [kindGaps, hd, hk]
  | var =>
    refine hread (hequals w.rules.beforeEqDo w.rules.afterEqDo fun k =>
      not_frozen_tail (by simp [hk]) (by simp [hk]) (by simp [hk])) fun d hd => ?_
    simp only [kindGaps, hd, hk]
  | argName =>
    refine hread (hequals w.rules.beforeEqCall w.rules.afterEqCall fun k =>
      not_frozen_tail (by simp [hk]) (by simp [hk]) (by simp [hk])) fun d hd => ?_
    simp only [kindGaps, hd, hk]
  | enumeratorName => exact hread (hinit (.inl hk)) fun d hd => by simp only [kindGaps, hd, hk]
  | namedConstant => exact hread (hinit (.inr hk)) fun d hd => by simp only [kindGaps, hd, hk]
  | separator =>
    exact hread (acts_separatorGaps hk hp hprevious) fun d hd => by simp only [kindGaps, hd, hk]
  | associateName =>
    exact hread (acts_ite_contains (c := '=') hi hp (by decide) (acts_associationGaps hp fun k =>
      not_frozen_tail (by simp [hk]) (by simp [hk]) (by simp [hk])))
      fun d hd => by simp only [kindGaps, hd, hk]
  | _ => exact hread (acts_keywordGap (i := i) hv) fun d hd => by simp only [kindGaps, hd, hk]

theorem acts_firstRound (ho : w.forest.Ordered) (hv : w.rules.validate = .ok ())
    (hs : w.rules.Settles w.forest)
    {js : List NodeId} (hi : i < w.forest.size) (hjs : ∀ j ∈ js, i < j) :
    w.Acts ((i :: js).filter w.deferred) (js.filter w.deferred) fun d =>
      w.rules.firstRound d i := by
  have hrest : ((i :: js).filter w.deferred).filter (· ≠ i) = js.filter w.deferred := by
    rw [List.filter_filter, List.filter_cons_of_neg (by simp)]
    refine List.filter_congr fun j hj => ?_
    have hji : j ≠ i := (Nat.ne_of_lt (hjs j hj)).symm
    simp [hji]
  have hpunctuation :
      w.Acts ((i :: js).filter w.deferred) (((i :: js).filter w.deferred).filter (· ≠ i))
      fun d => w.rules.punctuation d i :=
    acts_punctuation (fun h => tab_not_mem_skeleton h i) fun h => by simp [deferred, h]
  rw [hrest] at hpunctuation
  have hlate (p : NodeId) (hp : p ≤ i) : p ∉ js.filter w.deferred := fun hmem =>
    Nat.not_lt_of_le hp (hjs p (List.mem_filter.mp hmem).1)
  refine hpunctuation.comp (acts_kindGaps hv hi (hlate i (Nat.le_refl i)) ?_ ?_ ?_)
  · intro hname hjoined c hc hpart hmem
    have hdeferred := (List.mem_filter.mp hmem).2
    simp only [deferred, hname, hpart, beq_self_eq_true, Bool.true_and, Bool.and_eq_true,
      Bool.not_eq_true', List.any_eq_false, List.contains_iff_mem] at hdeferred
    exact hdeferred.2 i ((ho.mem_preorder i).mpr hi) ⟨hjoined, hc⟩
  · intro p hp
    exact hlate p (Nat.le_of_lt (ho.previousSibling_lt i p hp))
  · intro hzero hk
    exact hs.arrows hzero i ((ho.mem_preorder i).mpr hi) hk

theorem acts_firstRounds (ho : w.forest.Ordered) (hv : w.rules.validate = .ok ())
    (hs : w.rules.Settles w.forest) {is : List NodeId} (hlt : ∀ i ∈ is, i < w.forest.size)
    (hsorted : is.Pairwise (· < ·)) :
    w.Acts (is.filter w.deferred) [] fun d => is.foldl w.rules.firstRound d := by
  induction is with
  | nil => exact .id w []
  | cons i is ih =>
    obtain ⟨hi, his⟩ := List.forall_mem_cons.mp hlt
    obtain ⟨hfirst, hrest⟩ := List.pairwise_cons.mp hsorted
    exact (acts_firstRound ho hv hs hi hfirst).comp (ih his hrest)

end SpacingRules

end FortranLayout
