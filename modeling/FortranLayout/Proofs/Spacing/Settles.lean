import FortranLayout.Proofs.Forest.Ordered
import FortranLayout.Proofs.Spacing.Slots

/-!
# Where one run of spacing is enough

Each rule of the four rounds applies, at the slots that it edits, an edit that is steady there. Four
things stand in the way of that, and `SpacingRules.Settles` excludes them: blanks that are moved
from before to behind what follows an operator, tabs in a name that is joined before they are
expanded, an equals sign that becomes an arrow, and a word before a marker that is told from the end
of its line by the blanks after it.
-/

namespace FortranLayout

open Text
  (spread squeeze Inked Spares Steady ArrowGaps WordGaps leadWith endWith shiftRight strip
    hasNewline)

/-! ## Where spacing settles -/

/-- The kinds of nodes whose parts are joined. -/
def Kind.isJoined : Kind → Bool
  | name | typeName | attributeName => true
  | _ => false

/-- The blanks after a child that is an operator or the sign of an assignment. -/
def SpacingRules.afterSign (r : SpacingRules) : (parent child : Kind) → Width
  | .opExpr, .op => r.afterOp
  | .assignStmt, .affectation => r.afterAffectation
  | .pointerAssignStmt, .affectation => r.afterAffectation
  | _, _ => .keep

/-- A text ends in a word right after a closing parenthesis. -/
def Text.endsInWord (xs : List Char) : Bool :=
  xs.getLast?.any isLetter && (xs.reverse.dropWhile isLetter).head?.any (foldLetter · == ')')

/-- One run of spacing is enough for the store. -/
structure SpacingRules.Settles (r : SpacingRules) (f : Forest) : Prop where
  /-- After an operator or a sign that is to have blanks after it there are blanks only. -/
  signs : ∀ p ∈ f.preorder, ∀ c ∈ f.children p,
    (r.afterSign (f.kind p) (f.kind c)).count?.getD 0 = 0 ∨
      squeeze (r.expanded (f.tail c).toList) = []
  /-- There are no tabs between the parts of a name that are joined. -/
  names : r.inName = true → r.expandTabs = true → ∀ p ∈ f.preorder, (f.kind p).isJoined = true →
    ∀ c ∈ f.children p, f.kind c = .namePart → '\t' ∉ (f.tail c).toList
  /-- Deleting the blanks after the equals sign of an initial value makes no arrow. -/
  arrows : r.afterEqInit = .exactly 0 → ∀ i ∈ f.preorder,
    f.kind i = .enumeratorName ∨ f.kind i = .namedConstant →
    Gaps.hasArrow (squeeze (r.expanded (f.tail i).toList)) = true →
    Gaps.hasArrow (r.expanded (f.tail i).toList) = true
  /-- A THEN whose distance is set is not right before a marker whose distance is set. -/
  thens : r.beforeThen ≠ .keep → r.beforeEndMarker ≠ .keep → ∀ p ∈ f.preorder,
    f.kind p = .ifThenStmt ∨ f.kind p = .elseIfStmt → ∀ c ∈ f.children p, ∀ marker ∈ f.children p,
    f.childOfKind? p .condition = some c → f.kind marker = .continuation →
    (some c, marker) ∈ withPrevious (f.children p) → hasNewline (f.tail c).toList = false →
    Text.endsInWord (squeeze (r.expanded (f.tail c).toList)) = false

theorem Text.endsInWord_of_wordGaps {xs : List Char} {k : Nat} (h : WordGaps xs k) :
    endsInWord xs = true := by
  obtain ⟨u, x, v, rfl, hfold, hletters, hlow, hhigh⟩ := h
  have hx : isLetter x = false := isLetter_eq_false_of_fold (by decide) hfold
  have hdrop : (u ++ x :: v).reverse.dropWhile isLetter = x :: u.reverse := by
    rw [List.reverse_append, List.reverse_cons, List.append_assoc, List.dropWhile_append_of_pos,
      List.singleton_append, List.dropWhile_cons_of_neg (by simp [hx])]
    intro y hy
    exact hletters y (List.mem_reverse.mp hy)
  have hlast : (u ++ x :: v).getLast?.any isLetter = true := by
    cases v using List.reverseRecOn with
    | nil =>
      rw [List.length_append] at hhigh
      simp only [List.length_cons, List.length_nil] at hhigh
      omega
    | append_singleton v y =>
      have hconcat : u ++ x :: (v ++ [y]) = (u ++ x :: v) ++ [y] := by simp
      rw [hconcat, List.getLast?_concat, Option.any_some]
      exact hletters y (by simp)
  rw [endsInWord, hlast, hdrop]
  simp [hfold]

/-! ## Edits that are steady at a slot -/

namespace SpacingFrame

variable {w : SpacingFrame} {i : NodeId} {c : Char} {n k : Nat}

theorem spares_text (hc : c.isLower = false) :
    Spares (w.frozen (.text i)) (w.skeleton (.text i)) c := by
  rintro k ⟨j, x, y, rfl, hx, hy, hpair⟩
  obtain ⟨hxlower, hylower⟩ := isLower_of_mem_keywordPairs hpair
  refine ⟨fun z hz hfold => ?_, fun m z hm hz hfold => ?_⟩
  · obtain rfl : y = z := Option.some.inj (hy.symm.trans hz)
    rw [hfold, hc] at hylower
    cases hylower
  · obtain rfl : j = m := by omega
    obtain rfl : x = z := Option.some.inj (hx.symm.trans hz)
    rw [hfold, hc] at hxlower
    cases hxlower

theorem not_frozen_text_last : ¬ w.frozen (.text i) (w.skeleton (.text i)).length := by
  rintro ⟨j, x, y, hk, _, hy, _⟩
  rw [← hk, List.getElem?_eq_none (Nat.le_refl _)] at hy
  cases hy

theorem spares_tail (hc : c.isLower = false ∧ c ≠ '=' ∧ c ≠ '>') :
    Spares (w.frozen (.tail i)) (w.skeleton (.tail i)) c := by
  obtain ⟨hc, heq, hgt⟩ := hc
  have hfold : Text.foldLetter '=' = '=' ∧ Text.foldLetter '>' = '>' := by decide
  rintro k (⟨_, j, x, y, rfl, hx, hy, rfl, rfl⟩ | ⟨_, hword⟩)
  · refine ⟨fun z hz he => ?_, fun m z hm hz he => ?_⟩
    · obtain rfl : '>' = z := Option.some.inj (hy.symm.trans hz)
      exact hgt (he.symm.trans hfold.2)
    · obtain rfl : j = m := by omega
      obtain rfl : '=' = z := Option.some.inj (hx.symm.trans hz)
      exact heq (he.symm.trans hfold.1)
  · exact Text.spares_wordGaps hc _ k hword

theorem not_frozen_tail_zero : ¬ w.frozen (.tail i) 0 := by
  rintro (⟨_, j, _, _, hk, _⟩ | ⟨_, u, _, _, _, _, _, hk, _⟩) <;> omega

/-- Only the end of a THEN is frozen at the end of a tail. -/
theorem of_frozen_tail_last (h : w.frozen (.tail i) (w.skeleton (.tail i)).length) :
    w.BeforeThen i ∧ WordGaps (w.skeleton (.tail i)) (w.skeleton (.tail i)).length := by
  rcases h with ⟨_, j, x, y, hk, _, hy, _⟩ | h
  · rw [← hk, List.getElem?_eq_none (Nat.le_refl _)] at hy
    cases hy
  · exact h

theorem BeforeThen.kind_eq (h : w.BeforeThen i) : w.forest.kind i = .condition := by
  obtain ⟨_, p, _, _, hchild⟩ := h
  simpa using List.find?_some hchild

/-- In the tails of most nodes nothing is frozen. -/
theorem not_frozen_tail (hname : w.forest.kind i ≠ .enumeratorName)
    (hconstant : w.forest.kind i ≠ .namedConstant) (hcondition : w.forest.kind i ≠ .condition) :
    ¬ w.frozen (.tail i) k := by
  rintro (⟨hname' | hconstant', _⟩ | ⟨hthen, _⟩)
  · exact hname hname'
  · exact hconstant hconstant'
  · exact hcondition hthen.kind_eq

theorem steadyAt_tail_before (hb : c ≠ ' ') (hc : c.isLower = false ∧ c ≠ '=' ∧ c ≠ '>') (n : Nat) :
    w.SteadyAt (.tail i) (Gaps.before c n).everywhere :=
  Text.steady_before (w.inked _) hb (fun k hk => (spares_tail hc k hk).1) n

theorem steadyAt_leadWith (n : Nat) : w.SteadyAt (.tail i) (leadWith n) :=
  Steady.leadWith (w.inked _) not_frozen_tail_zero n

theorem steadyAt_endWith (h : w.BeforeThen i → ¬ WordGaps (w.skeleton (.tail i))
    (w.skeleton (.tail i)).length) (n : Nat) : w.SteadyAt (.tail i) (endWith n) :=
  Steady.endWith (w.inked _)
    (fun hlast => h (of_frozen_tail_last hlast).1 (of_frozen_tail_last hlast).2) n

theorem steadyAt_endWith_of_kind (h : w.forest.kind i ≠ .condition) (n : Nat) :
    w.SteadyAt (.tail i) (endWith n) :=
  steadyAt_endWith (fun hthen => absurd hthen.kind_eq h) n

theorem steadyAt_text_endWith (n : Nat) : w.SteadyAt (.text i) (endWith n) :=
  Steady.endWith (w.inked _) not_frozen_text_last n

/-! ## Reading a draft of the frame -/

section

variable {pending : List NodeId} {γ : TextSlot → Nat → Nat} {d : Draft}

theorem Admits.tail_eq (hd : w.Admits pending γ d) (hi : i < w.forest.size) (hp : i ∉ pending) :
    (d.forest.tail i).toList = spread (w.skeleton (.tail i)) (γ (.tail i)) := by
  have hslot := hd.slot_eq (.tail i) hi
  rwa [settled, if_neg hp] at hslot

theorem Admits.text_eq (hd : w.Admits pending γ d) (hi : i < w.forest.size) :
    (d.forest.text i).toList = spread (w.skeleton (.text i)) (γ (.text i)) :=
  hd.slot_eq (.text i) hi

theorem contains_spread {xs : List Char} (hx : Inked xs) (hc : Text.isBlank c = false)
    (δ : Nat → Nat) :
    (spread xs δ).contains c = xs.contains c := by
  rw [List.contains_eq_mem, List.contains_eq_mem, decide_eq_decide, ← Text.mem_squeeze hc,
    Text.squeeze_spread hx]

theorem Admits.contains_tail (hd : w.Admits pending γ d) (hi : i < w.forest.size) (hp : i ∉ pending)
    (hc : Text.isBlank c = false) :
    (d.forest.tail i).toList.contains c = (w.skeleton (.tail i)).contains c := by
  rw [hd.tail_eq hi hp, contains_spread (w.inked _) hc]

theorem Admits.contains_text (hd : w.Admits pending γ d) (hi : i < w.forest.size)
    (hc : Text.isBlank c = false) :
    (d.forest.text i).toList.contains c = (w.skeleton (.text i)).contains c := by
  rw [hd.text_eq hi, contains_spread (w.inked _) hc]

/-- Whether there is an arrow is the same in all drafts, where it matters. -/
theorem Admits.hasArrow_tail (hd : w.Admits pending γ d) (hi : i < w.forest.size) (hp : i ∉ pending)
    (hk : w.forest.kind i = .enumeratorName ∨ w.forest.kind i = .namedConstant) :
    Gaps.hasArrow (d.forest.tail i).toList = Gaps.hasArrow (w.content (.tail i)) := by
  rw [hd.tail_eq hi hp, ← w.spread_gaps, Bool.eq_iff_iff, Text.hasArrow_spread,
    Text.hasArrow_spread]
  refine exists_congr fun k => and_congr_right fun harrow => ?_
  exact (hd.alike (.tail i) k (Or.inl ⟨hk, harrow⟩)).symm

end

/-! ## Edits for a width -/

section

variable {pending : List NodeId} {g : Nat → List Char → List Char}

theorem acts_editTail (hp : i ∉ pending) {g : List Char → List Char} (hg : w.SteadyAt (.tail i) g) :
    w.Acts pending pending fun d => d.editTail i g :=
  acts_editSlot (a := .tail i) (fun _ => if_neg hp) fun _ => hg

theorem acts_editText {g : List Char → List Char} (hg : w.SteadyAt (.text i) g) :
    w.Acts pending pending fun d => d.editText i g :=
  acts_editSlot (a := .text i) (fun _ => rfl) fun _ => hg

theorem acts_fitTail (width : Width) (hp : i ∉ pending)
    (hg : ∀ n, width = .exactly n → w.SteadyAt (.tail i) (g n)) :
    w.Acts pending pending fun d => d.fitTail i width g := by
  cases width with
  | keep => exact .id w pending
  | exactly n => exact acts_editTail hp (hg n rfl)

theorem acts_fitText (width : Width) (hg : ∀ n, width = .exactly n → w.SteadyAt (.text i) (g n)) :
    w.Acts pending pending fun d => d.fitText i width g := by
  cases width with
  | keep => exact .id w pending
  | exactly n => exact acts_editText (hg n rfl)

theorem acts_fitCode (width : Width) (hp : i ∉ pending) (htail : ∀ n, w.SteadyAt (.tail i) (g n))
    (htext : ∀ n, w.SteadyAt (.text i) (g n)) :
    w.Acts pending pending fun d => d.fitCode i width g := by
  cases width with
  | keep => exact .id w pending
  | exactly n =>
    have hcode : w.Acts pending pending fun d =>
        if (d.forest.kind i).isNonCode then d else d.editText i (g n) :=
      Acts.ite (fun γ d hd => congrArg Kind.isNonCode (hd.shape.kind_eq i)) (fun _ => .id w pending)
        fun _ => acts_editText (htext n)
    exact (acts_editTail hp (htail n)).comp hcode

/-- An edit of each child that has the given kind. -/
theorem acts_childrenOfKind {step : Draft → NodeId → Draft} {p : NodeId} {kind : Kind}
    (h : ∀ c ∈ w.forest.children p,
      w.forest.kind c = kind → w.Acts pending pending fun d => step d c) :
    w.Acts pending pending fun d => (SpacingRules.childrenOfKind d p kind).foldl step d := by
  have hfold : w.Acts pending pending fun d =>
      ((w.forest.children p).filter (w.forest.kind · == kind)).foldl step d := by
    refine Acts.foldl fun c hc => ?_
    obtain ⟨hmem, hkind⟩ := List.mem_filter.mp hc
    exact h c hmem (by simpa using hkind)
  refine hfold.congr fun γ d hd => ?_
  simp only [SpacingRules.childrenOfKind, hd.shape.children_eq, hd.shape.kind_eq]

end

/-- The tails whose tabs are expanded when their node is reached: all but those of the parts of a
name, which is joined before that. -/
def deferred (w : SpacingFrame) (i : NodeId) : Bool :=
  w.rules.expandTabs && !(w.rules.inName && w.forest.kind i == .namePart &&
    w.forest.preorder.any fun p => (w.forest.kind p).isJoined && (w.forest.children p).contains i)

theorem tab_not_mem_skeleton (h : w.rules.expandTabs = true) (i : NodeId) :
    '\t' ∉ w.skeleton (.tail i) := by
  rw [skeleton, content, SpacingRules.expanded, if_pos h, Text.mem_squeeze (by decide)]
  exact Text.tab_not_mem_expandTabs _

theorem mem_skeleton_tail (ht : c ≠ '\t') (hc : Text.isBlank c = false)
    (h : c ∈ (w.forest.tail i).toList) :
    c ∈ w.skeleton (.tail i) := by
  rw [skeleton, content, SpacingRules.expanded, Text.mem_squeeze hc]
  split
  · exact Text.mem_expandTabs ht h
  · exact h

end SpacingFrame

end FortranLayout
