import FortranLayout.Proofs.IfConstructs.Conversion
import Mathlib.Algebra.BigOperators.Group.List.Basic

/-!
# Nothing is left to convert

In a converted element there is no convertible statement (`Element.Converts.conversions_eq_zero`). A
statement that could not be converted cannot be afterwards: what it lacks it still lacks, since
conversions make no conditions and no actions (`Element.Converts.kind_eq_iff`), and a CYCLE below it
is still there, since nothing that has a CYCLE is converted or left out
(`Element.Converts.any_cycle`).
-/

namespace FortranLayout

open Forest (thenTail)
open Text (lineBreak)

theorem exists_mem_right_of_forall₂ {α β : Type} {R : α → β → Prop} {as : List α} {bs : List β}
    (h : List.Forall₂ R as bs) {a : α} (ha : a ∈ as) : ∃ b ∈ bs, R a b := by
  induction h with
  | nil => cases ha
  | @cons a' b as bs hab _ ih =>
    rcases List.mem_cons.mp ha with rfl | ha
    · exact ⟨b, List.mem_cons_self, hab⟩
    · obtain ⟨b', hb', hr⟩ := ih ha
      exact ⟨b', List.mem_cons_of_mem _ hb', hr⟩

theorem exists_mem_left_of_forall₂ {α β : Type} {R : α → β → Prop} {as : List α} {bs : List β}
    (h : List.Forall₂ R as bs) {b : β} (hb : b ∈ bs) : ∃ a ∈ as, R a b :=
  exists_mem_right_of_forall₂ h.flip hb

/-- All parts are found if there are a condition and an action that is not empty. -/
theorem isSome_ifParts?_iff {α : Type} {kind : α → Kind} {children : α → List α} {x : α} :
    (ifParts? kind children x).isSome = true ↔
      ((children x).find? (kind · == .condition)).isSome = true ∧
      ∃ a, (children x).find? (kind · == .actionStmt) = some a ∧ children a ≠ [] := by
  rw [ifParts?]
  cases (children x).find? (kind · == .condition) with
  | none => simp
  | some c =>
    cases (children x).find? (kind · == .actionStmt) with
    | none => simp
    | some a => cases hchildren : children a <;> simp [hchildren]

namespace Element

variable {e e' : Element} {k : Kind}

theorem isSome_conversion?_iff :
    e.conversion?.isSome = true ↔
      (e.kind = .ifStmt ∧ e.subelements.tail.any (·.kind == .cycleStmt) = false) ∧
      (ifParts? kind children e).isSome = true := by
  have hguard : e.kind = .ifStmt ∧ e.subelements.tail.any (·.kind == .cycleStmt) = false ↔
      (e.kind == .ifStmt && !e.subelements.tail.any (·.kind == .cycleStmt)) = true := by
    rw [Bool.and_eq_true, beq_iff_eq, Bool.not_eq_true']
  rw [conversion?, hguard]
  split
  · rename_i h
    rw [and_iff_right h]
  · rename_i h
    exact iff_of_false (by simp) fun hboth => h hboth.1

/-! ## What conversions keep -/

theorem Converts.kind_eq (h : Converts e e') :
    e'.kind = e.kind ∨ e.conversion?.isSome = true ∧ e'.kind = Kind.ofTag "if-construct" := by
  cases h with
  | keep => exact .inl rfl
  | convert level hparts _ _ _ => exact .inr ⟨by rw [hparts]; rfl, rfl⟩

theorem Converts.kind_eq_iff (h : Converts e e') (hk : k ≠ .ifStmt)
    (hk' : k ≠ Kind.ofTag "if-construct") :
    e'.kind = k ↔ e.kind = k := by
  rcases h.kind_eq with hkind | ⟨hsome, hkind⟩
  · rw [hkind]
  · have hifStmt : e.kind = .ifStmt := (isSome_conversion?_iff.mp hsome).1.1
    rw [hkind, hifStmt]
    exact iff_of_false hk'.symm hk.symm

/-- Nothing with a CYCLE in it is left out. -/
theorem Converts.any_cycle (h : Converts e e')
    (hcycle : e.subelements.any (·.kind == .cycleStmt) = true) :
    e'.subelements.any (·.kind == .cycleStmt) = true := by
  revert hcycle
  refine parts_induct (motive := fun e e' => e.subelements.any (·.kind == .cycleStmt) = true →
    e'.subelements.any (·.kind == .cycleStmt) = true) ?keep ?convert h
  case keep =>
    intro e cs hnone hbelow ih hcycle
    rw [subelements_eq, List.any_cons, List.any_flatMap, Bool.or_eq_true,
      List.any_eq_true] at hcycle ⊢
    refine hcycle.imp id ?_
    rintro ⟨c, hc, hcycle⟩
    obtain ⟨c', hc', hconv⟩ := exists_mem_right_of_forall₂ hbelow hc
    exact ⟨c', hc', ih c hc c' hconv hcycle⟩
  case convert =>
    intro e c s p os level hparts _ _ _ _ hcycle
    obtain ⟨⟨hkind, hnone⟩, -⟩ := isSome_conversion?_iff.mp (by rw [hparts]; rfl)
    rw [subelements_eq, List.tail_cons] at hnone
    rw [subelements_eq, List.any_cons, hkind, hnone] at hcycle
    cases hcycle

/-! ## What cannot be converted -/

theorem find?_forall₂ {cs cs' : List Element} (h : List.Forall₂ Converts cs cs') (hk : k ≠ .ifStmt)
    (hk' : k ≠ Kind.ofTag "if-construct") :
    Option.Rel Converts (cs.find? (·.kind == k)) (cs'.find? (·.kind == k)) := by
  induction h with
  | nil => exact .none
  | @cons c c' cs cs' hc _ ih =>
    have hkind : (c'.kind == k) = (c.kind == k) := by
      rw [Bool.eq_iff_iff, beq_iff_eq, beq_iff_eq]
      exact hc.kind_eq_iff hk hk'
    rw [List.find?_cons, List.find?_cons, hkind]
    split
    · exact .some hc
    · exact ih

/-- Parts that are found after conversions were there before. -/
theorem isSome_ifParts?_of_forall₂ {cs : List Element}
    (hbelow : List.Forall₂ Converts e.children cs)
    (h : (ifParts? kind children { e with children := cs }).isSome = true) :
    (ifParts? kind children e).isSome = true := by
  have hcondition := find?_forall₂ (k := .condition) hbelow (by decide) (by decide)
  have haction := find?_forall₂ (k := .actionStmt) hbelow (by decide) (by decide)
  obtain ⟨hfound, a', ha', hne⟩ := isSome_ifParts?_iff.mp h
  dsimp only at hfound ha'
  rw [ha'] at haction
  refine isSome_ifParts?_iff.mpr ⟨?_, ?_⟩
  · generalize cs.find? _ = found' at hfound hcondition
    generalize e.children.find? _ = found at hcondition ⊢
    cases hcondition with
    | none => exact hfound
    | some => rfl
  · generalize ha : e.children.find? _ = found at haction
    cases haction with
    | @some a _ hconv =>
      -- an action is no statement, so it has the children that it had, converted
      have hkind : a.kind = .actionStmt := by simpa using List.find?_some ha
      refine ⟨a, rfl, ?_⟩
      cases hconv with
      | keep _ hchildren =>
        rintro hempty
        rw [hempty, List.forall₂_nil_left_iff] at hchildren
        exact hne hchildren
      | convert level hparts _ _ _ =>
        have hifStmt := (isSome_conversion?_iff.mp (by rw [hparts]; rfl)).1.1
        rw [hkind] at hifStmt
        cases hifStmt

/-- A statement that is not converted cannot be converted when what is below it has been. -/
theorem conversion?_keep {cs : List Element} (hnone : e.conversion? = none)
    (hbelow : List.Forall₂ Converts e.children cs) :
    ({ e with children := cs } : Element).conversion? = none := by
  rw [← Option.not_isSome_iff_eq_none, isSome_conversion?_iff] at hnone ⊢
  rintro ⟨⟨hkind, hcycle⟩, hparts⟩
  refine hnone ⟨⟨hkind, ?_⟩, isSome_ifParts?_of_forall₂ hbelow hparts⟩
  rw [subelements_eq, List.tail_cons, List.any_flatMap, List.any_eq_false] at hcycle ⊢
  intro c hc hcyclec
  obtain ⟨c', hc', hconv⟩ := exists_mem_right_of_forall₂ hbelow hc
  exact hcycle c' hc' (hconv.any_cycle hcyclec)

theorem conversions_ifConstruct (text tail : String) (level : Nat) (os : List Element)
    (c s : Element) :
    (ifConstruct text tail level os c s).conversions = (os.map conversions).sum +
      (c.conversions + s.conversions) := by
  have hkind {x : Element} (h : x.kind ≠ .ifStmt) :
      x.conversions = (x.children.map conversions).sum := by
    rw [conversions_eq, conversion?_of_kind h]
    exact Nat.zero_add _
  have hheader (t t' : String) :
      ({ tag := "if-then-stmt", text := t, tail := t', children := [c] } : Element).conversions =
      c.conversions := by
    rw [hkind (by simp only [kind]; decide)]
    simp
  have hclosing : ({ tag := "end-if-stmt", text := "END IF" } : Element).conversions = 0 := by
    rw [hkind (by simp only [kind]; decide)]
    rfl
  rw [ifConstruct, hkind (by simp only [kind]; decide), List.map_append, List.sum_append,
    List.map_singleton, List.sum_singleton, hkind (by simp only [kind]; decide)]
  simp [hheader, hclosing]

/-- A converted element has nothing left to convert. -/
theorem Converts.conversions_eq_zero (h : Converts e e') : e'.conversions = 0 := by
  refine parts_induct (motive := fun _ e' => e'.conversions = 0) ?keep ?convert h
  case keep =>
    intro e cs hnone hbelow ih
    have hcs : ∀ c' ∈ cs, c'.conversions = 0 := by
      intro c' hc'
      obtain ⟨c, hc, hconv⟩ := exists_mem_left_of_forall₂ hbelow hc'
      exact ih c hc c' hconv
    have hsum : (cs.map conversions).sum = 0 := List.sum_eq_zero (by simpa using hcs)
    rw [conversions_eq, conversion?_keep hnone hbelow, hsum]
    rfl
  case convert =>
    intro e c s p os level _ ho hcondition hstatement ih
    have hos : ∀ o' ∈ os, o'.conversions = 0 := by
      intro o' ho'
      obtain ⟨o, hom, hconv⟩ := exists_mem_left_of_forall₂ ho ho'
      exact ih o hom o' hconv
    have hsum : (os.map conversions).sum = 0 := List.sum_eq_zero (by simpa using hos)
    rw [conversions_ifConstruct, hcondition, hstatement, hsum]

end Element

end FortranLayout
