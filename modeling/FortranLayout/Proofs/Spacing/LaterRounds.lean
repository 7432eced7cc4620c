import FortranLayout.Proofs.Spacing.Settles

/-!
# The later rounds act on the gaps

All tabs are expanded by then, so nothing is pending. The second round edits the children of a node,
the third the neighbours of a marker, the fourth the words of a keyword.
-/

namespace FortranLayout

open Text (squeeze Steady Paired WordGaps leadWith endWith shiftRight strip hasNewline)

theorem mem_withPrevious {α : Type} {xs : List α} {step : Option α × α}
    (h : step ∈ withPrevious xs) :
    step.2 ∈ xs ∧ ∀ x ∈ step.1, x ∈ xs := by
  obtain ⟨hprevious, hitem⟩ := List.of_mem_zip h
  refine ⟨hitem, ?_⟩
  rintro x hx
  rw [hx] at hprevious
  simpa using hprevious

/-- An item and the one before it are neighbours. -/
theorem exists_of_mem_withPrevious {α : Type} {xs : List α} {p c : α}
    (h : (some p, c) ∈ withPrevious xs) :
    ∃ us vs, xs = us ++ p :: c :: vs := by
  -- The induction is on the items behind an item `q`.
  have hbehind (q : Option α) : (some p, c) ∈ (q :: xs.map some).zip xs →
      (∃ us vs, xs = us ++ p :: c :: vs) ∨ q = some p ∧ ∃ vs, xs = c :: vs := by
    clear h
    induction xs generalizing q with
    | nil => intro h; cases h
    | cons x xs ih =>
      intro h
      rw [List.map_cons, List.zip_cons_cons, List.mem_cons] at h
      rcases h with h | h
      · obtain ⟨rfl, rfl⟩ := Prod.mk.inj h
        exact Or.inr ⟨rfl, xs, rfl⟩
      · rcases ih (some x) h with ⟨us, vs, rfl⟩ | ⟨hx, vs, rfl⟩
        · exact Or.inl ⟨x :: us, vs, rfl⟩
        · obtain rfl := Option.some.inj hx
          exact Or.inl ⟨[], vs, rfl⟩
  rcases hbehind none h with hfound | ⟨hnone, _⟩
  · exact hfound
  · cases hnone

namespace SpacingRules

open SpacingFrame

variable {w : SpacingFrame} {i p c : NodeId}

theorem kind_of_beforeThen (h : w.BeforeThen c) (hparent : w.forest.parent? c = some p) :
    (w.forest.kind p = .ifThenStmt ∨ w.forest.kind p = .elseIfStmt) ∧
      w.forest.childOfKind? p .condition = some c := by
  obtain ⟨_, p', hp', hkind, hchild⟩ := h
  obtain rfl : p = p' := Option.some.inj (hparent.symm.trans hp')
  exact ⟨hkind, hchild⟩

/-- A step for each child of a node and the child before it. -/
theorem acts_withPrevious {step : Draft → Option NodeId × NodeId → Draft}
    (h : ∀ s ∈ withPrevious (w.forest.children p), w.Acts [] [] fun d => step d s) :
    w.Acts [] [] fun d => (withPrevious (d.forest.children p)).foldl step d := by
  refine (Acts.foldl h).congr fun γ d hd => ?_
  rw [hd.shape.children_eq]

/-- A step that is taken if a node has the given kind. -/
theorem acts_ite_kind {step : Draft → Draft} {kind : Kind}
    (h : w.forest.kind c = kind → w.Acts [] [] step) :
    w.Acts [] [] fun d => if d.forest.kind c == kind then step d else d := by
  refine Acts.ite (b := w.forest.kind c == kind) (fun γ d hd => ?_) (fun hkind => h ?_) fun _ =>
    .id w []
  · rw [hd.shape.kind_eq]
  · simpa using hkind

/-! ## Second round -/

theorem acts_aroundChildren {kind : Kind} {before after : Width}
    (hthen : ∀ c ∈ w.forest.children p, ¬ w.BeforeThen c)
    (hsign : ∀ c ∈ w.forest.children p, w.forest.kind c = kind →
      after.count?.getD 0 = 0 ∨ w.skeleton (.tail c) = []) :
    w.Acts [] [] fun d => aroundChildren d p kind before after := by
  unfold aroundChildren
  refine acts_withPrevious fun ⟨previous, child⟩ hs => acts_ite_kind fun hkind => ?_
  obtain ⟨hchild, hprevious⟩ := mem_withPrevious hs
  have hafter : w.Acts [] [] fun d => d.fitTail child after shiftRight := by
    refine acts_fitTail after List.not_mem_nil fun n hn => ?_
    refine Steady.shiftRight (w.inked _) not_frozen_tail_zero ?_
    rcases hsign child hchild hkind with hzero | hnil
    · rw [hn] at hzero
      exact Or.inr hzero
    · exact Or.inl hnil
  cases previous with
  | none => exact hafter
  | some q =>
    have hbefore : w.Acts [] [] fun d => d.fitTail q before endWith :=
      acts_fitTail before List.not_mem_nil fun n _ =>
        steadyAt_endWith (fun h => absurd h (hthen q (hprevious q rfl))) n
    exact hbefore.comp hafter

theorem acts_operators (hthen : ∀ c ∈ w.forest.children p, ¬ w.BeforeThen c)
    (hsign : ∀ c ∈ w.forest.children p, w.forest.kind c = .op →
      w.rules.afterOp.count?.getD 0 = 0 ∨ w.skeleton (.tail c) = []) :
    w.Acts [] [] fun d => w.rules.operators d p := by
  have hjoin : w.Acts [] [] fun d => if w.rules.inOperator then
      (childrenOfKind d p .op).foldl (fun d op =>
        (childrenOfKind d op .opSpelling).foldl (fun d part => d.editTail part strip) d) d
    else d := by
    refine Acts.when fun _ => acts_childrenOfKind fun op _ _ =>
      acts_childrenOfKind fun part _ hkind => ?_
    have hfree : ∀ k, ¬ w.frozen (.tail part) k := fun k =>
      not_frozen_tail (by simp [hkind]) (by simp [hkind]) (by simp [hkind])
    exact acts_editTail List.not_mem_nil (Steady.strip (w.inked _) (hfree _) (hfree _))
  exact (acts_aroundChildren hthen hsign).comp hjoin

theorem acts_affectations (hthen : ∀ c ∈ w.forest.children p, ¬ w.BeforeThen c)
    (hsign : ∀ c ∈ w.forest.children p, w.forest.kind c = .affectation →
      w.rules.afterAffectation.count?.getD 0 = 0 ∨ w.skeleton (.tail c) = []) :
    w.Acts [] [] fun d => w.rules.affectations d p := by
  have hjoin : w.Acts [] [] fun d => if w.rules.inAffectation then
      (childrenOfKind d p .affectation).foldl (fun d sign => d.editText sign squeeze) d else d := by
    refine Acts.when fun _ => acts_childrenOfKind fun sign _ hkind =>
      acts_editText (Steady.squeeze (w.inked _) ?_)
    rintro k ⟨_, x, y, _, _, _, hpair⟩
    rw [Paired, keywordPairs_affectation hkind] at hpair
    cases hpair
  exact (acts_aroundChildren hthen hsign).comp hjoin

/-- An edit of the tail of the first child that has the given kind. -/
theorem acts_childOfKind {kind : Kind} {width : Width} {g : Nat → List Char → List Char}
    (hg : ∀ c, w.forest.childOfKind? p kind = some c → ∀ n,
      width = .exactly n → w.SteadyAt (.tail c) (g n)) :
    w.Acts [] [] fun d => match d.forest.childOfKind? p kind with
      | some c => d.fitTail c width g
      | none => d := by
  cases h : w.forest.childOfKind? p kind with
  | none =>
    refine (Acts.id w []).congr fun γ d hd => ?_
    rw [hd.shape.childOfKind?_eq, h]
  | some c =>
    refine (acts_fitTail width List.not_mem_nil (hg c h)).congr fun γ d hd => ?_
    rw [hd.shape.childOfKind?_eq, h]

theorem acts_actionGap (p : NodeId) (part : Kind) :
    w.Acts [] [] fun d => w.rules.actionGap d p part :=
  acts_childOfKind fun c _ n _ =>
    Text.steady_closingAtEnd (w.inked _) (spares_tail (by decide)) n

theorem acts_conditionalKeyword : w.Acts [] [] fun d => w.rules.conditionalKeyword d p := by
  unfold conditionalKeyword
  refine Acts.ite (b := w.forest.kind p == .caseStmt) (fun γ d hd => ?_) (fun _ => ?_) fun _ => ?_
  · rw [hd.shape.kind_eq]
  · exact Acts.ite (fun γ d hd => hd.shape.hasChildren_eq p)
      (fun _ => acts_fitText _ fun n _ => steadyAt_text_endWith n) fun _ => .id w []
  · exact acts_fitText _ fun n _ =>
      Text.steady_once_before (w.inked _) (by decide) (spares_text (by decide)) n

/-- The blanks before a THEN, whose own gaps are frozen. -/
theorem acts_thenGap (ho : w.forest.Ordered)
    (hkind : w.forest.kind p = .ifThenStmt ∨ w.forest.kind p = .elseIfStmt) :
    w.Acts [] [] fun d => match d.forest.childOfKind? p .condition with
      | some c => d.fitTail c w.rules.beforeThen fun n => (Gaps.closingThenWord n).everywhere
      | none => d := by
  refine acts_childOfKind fun c hc n hn => ?_
  have hmem : c ∈ w.forest.children p := List.mem_of_find?_eq_some hc
  have hcondition : w.forest.kind c = .condition := by simpa using List.find?_some hc
  have hthen : w.BeforeThen c := ⟨by simp [hn], p, ho.parent?_child p c hmem, hkind, hc⟩
  have hfrozen : w.frozen (.tail c) = WordGaps (w.skeleton (.tail c)) := by
    funext k
    simp [frozen, hcondition, hthen]
  rw [SteadyAt, hfrozen]
  exact Text.steady_closingThenWord (w.inked _) n

/-- The blanks before the THEN or the action of a conditional statement. -/
theorem acts_headerGap (ho : w.forest.Ordered) :
    w.Acts [] [] fun d => match d.forest.kind p with
      | .ifThenStmt | .elseIfStmt =>
        match d.forest.childOfKind? p .condition with
        | some c => d.fitTail c w.rules.beforeThen fun n => (Gaps.closingThenWord n).everywhere
        | none => d
      | .ifStmt => w.rules.actionGap d p .condition
      | .whereStmt => w.rules.actionGap d p .mask
      | .forallStmt => w.rules.actionGap d p .forallTriplets
      | _ => d := by
  cases hk : w.forest.kind p with
  | ifThenStmt =>
    exact (acts_thenGap ho (.inl hk)).congr fun γ d hd => by simp only [hd.shape.kind_eq, hk]
  | elseIfStmt =>
    exact (acts_thenGap ho (.inr hk)).congr fun γ d hd => by simp only [hd.shape.kind_eq, hk]
  | ifStmt =>
    exact (acts_actionGap p .condition).congr fun γ d hd => by simp only [hd.shape.kind_eq, hk]
  | whereStmt =>
    exact (acts_actionGap p .mask).congr fun γ d hd => by simp only [hd.shape.kind_eq, hk]
  | forallStmt =>
    exact (acts_actionGap p .forallTriplets).congr fun γ d hd => by simp only [hd.shape.kind_eq, hk]
  | _ => exact (Acts.id w []).congr fun γ d hd => by simp only [hd.shape.kind_eq, hk]

theorem acts_conditional (ho : w.forest.Ordered) : w.Acts [] [] fun d => w.rules.conditional d p :=
  acts_conditionalKeyword.comp (acts_headerGap ho)

theorem acts_secondRound (ho : w.forest.Ordered) (hs : w.rules.Settles w.forest)
    (hp : p < w.forest.size) :
    w.Acts [] [] fun d => w.rules.secondRound d p := by
  have hthen (hkind : w.forest.kind p ≠ .ifThenStmt ∧ w.forest.kind p ≠ .elseIfStmt) :
      ∀ c ∈ w.forest.children p, ¬ w.BeforeThen c := by
    intro c hc hthen
    rcases (kind_of_beforeThen hthen (ho.parent?_child p c hc)).1 with h | h
    · exact hkind.1 h
    · exact hkind.2 h
  have hsign {kind : Kind} {after : Width}
      (hafter : w.rules.afterSign (w.forest.kind p) kind = after) :
      ∀ c ∈ w.forest.children p, w.forest.kind c = kind →
        after.count?.getD 0 = 0 ∨ w.skeleton (.tail c) = [] := by
    rintro c hc rfl
    rw [← hafter]
    exact hs.signs p ((ho.mem_preorder p).mpr hp) c hc
  have hread {step : Draft → Draft} (h : w.Acts [] [] step)
      (heq : ∀ d, d.forest.kind p = w.forest.kind p → w.rules.secondRound d p = step d) :
      w.Acts [] [] fun d => w.rules.secondRound d p :=
    h.congr fun γ d hd => heq d (hd.shape.kind_eq p)
  have hconditional := acts_conditional (p := p) ho
  cases hk : w.forest.kind p with
  | opExpr =>
    exact hread (acts_operators (hthen (by simp [hk])) (hsign (by rw [hk]; rfl)))
      fun d hd => by simp only [secondRound, hd, hk]
  | assignStmt =>
    exact hread (acts_affectations (hthen (by simp [hk])) (hsign (by rw [hk]; rfl)))
      fun d hd => by simp only [secondRound, hd, hk]
  | pointerAssignStmt =>
    exact hread (acts_affectations (hthen (by simp [hk])) (hsign (by rw [hk]; rfl)))
      fun d hd => by simp only [secondRound, hd, hk]
  | ifStmt => exact hread hconditional fun d hd => by simp only [secondRound, hd, hk]
  | ifThenStmt => exact hread hconditional fun d hd => by simp only [secondRound, hd, hk]
  | elseIfStmt => exact hread hconditional fun d hd => by simp only [secondRound, hd, hk]
  | whereStmt => exact hread hconditional fun d hd => by simp only [secondRound, hd, hk]
  | whereConstructStmt => exact hread hconditional fun d hd => by simp only [secondRound, hd, hk]
  | elseWhereStmt => exact hread hconditional fun d hd => by simp only [secondRound, hd, hk]
  | selectCaseStmt => exact hread hconditional fun d hd => by simp only [secondRound, hd, hk]
  | caseStmt => exact hread hconditional fun d hd => by simp only [secondRound, hd, hk]
  | forallStmt => exact hread hconditional fun d hd => by simp only [secondRound, hd, hk]
  | constructStmt family =>
    by_cases hf : family = .forallLoop
    · subst hf
      exact hread hconditional fun d hd => by simp only [secondRound, hd, hk]
    · exact hread (.id w []) fun d hd => by simp [secondRound, hd, hk, hf]
  | _ => exact hread (.id w []) fun d hd => by simp only [secondRound, hd, hk]

/-! ## Third round -/

theorem acts_markerGap (ho : w.forest.Ordered) (hs : w.rules.Settles w.forest)
    (hp : p < w.forest.size)
    {s : Option NodeId × NodeId} (hmem : s ∈ withPrevious (w.forest.children p))
    (hkind : w.forest.kind s.2 = .continuation) :
    w.Acts [] [] fun d => w.rules.markerGap d p s.1 s.2 := by
  obtain ⟨hmarker, hprevious⟩ := mem_withPrevious hmem
  obtain ⟨previous, marker⟩ := s
  have hbegin : w.Acts [] [] fun d =>
      if hasNewline (d.forest.tail marker).toList then d
      else d.fitTail marker w.rules.afterBeginMarker leadWith :=
    Acts.ite
      (fun γ d hd => hd.contains_tail (ho.child_lt p marker hmarker) List.not_mem_nil (by decide))
      (fun _ => .id w []) fun _ => acts_fitTail _ List.not_mem_nil fun n _ => steadyAt_leadWith n
  cases previous with
  | none =>
    exact Acts.ite (fun γ d hd => hd.contains_text hp (by decide)) (fun _ => hbegin)
      fun _ => acts_fitText _ fun n _ => steadyAt_text_endWith n
  | some q =>
    have hq : q ∈ w.forest.children p := hprevious q rfl
    refine Acts.ite
      (fun γ d hd => hd.contains_tail (ho.child_lt p q hq) List.not_mem_nil (by decide))
      (fun _ => hbegin) fun hnewline => ?_
    refine acts_fitTail _ List.not_mem_nil fun n hn => steadyAt_endWith (fun hthen hword => ?_) n
    obtain ⟨hheader, hcondition⟩ := kind_of_beforeThen hthen (ho.parent?_child p q hq)
    have hline : hasNewline (w.forest.tail q).toList = false := by
      rw [hasNewline, List.contains_eq_mem, decide_eq_false_iff_not]
      rw [List.contains_eq_mem, decide_eq_false_iff_not] at hnewline
      exact fun h => hnewline (mem_skeleton_tail (by decide) (by decide) h)
    have hends :=
      hs.thens hthen.1 (by simp [hn]) p ((ho.mem_preorder p).mpr hp) hheader q hq marker hmarker
      hcondition hkind hmem hline
    have hends' := Text.endsInWord_of_wordGaps hword
    rw [skeleton, content, hends] at hends'
    cases hends'

theorem acts_thirdRound (ho : w.forest.Ordered) (hs : w.rules.Settles w.forest)
    (hp : p < w.forest.size) :
    w.Acts [] [] fun d => w.rules.thirdRound d p := by
  unfold thirdRound
  exact acts_withPrevious fun s hs' => acts_ite_kind fun hkind => acts_markerGap ho hs hp hs' hkind

/-! ## Fourth round -/

theorem acts_fourthRound {entry : AdjacentKeyword} (hentry : entry ∈ AdjacentKeyword.all)
    (order : List NodeId) : w.Acts [] [] fun d => w.rules.fourthRound order d entry := by
  unfold fourthRound
  cases w.rules.adjacentKeywords.count? entry.key entry.standard with
  | none => exact .id w []
  | some n =>
    refine Acts.foldl fun i _ => Acts.ite (fun γ d hd => hd.shape.isTarget_eq entry.target i)
      (fun htarget => acts_editText ?_) fun _ => .id w []
    exact AdjacentKeyword.steady_apply hentry (w.inked _)
      (fun q hq => mem_keywordPairs.mpr (.inl ⟨entry, hentry, htarget, hq⟩))
      (AdjacentKeyword.seams_not_mem_keywordPairs hentry htarget) n

end SpacingRules

end FortranLayout
