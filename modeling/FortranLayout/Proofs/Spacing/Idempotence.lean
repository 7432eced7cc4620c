import FortranLayout.Proofs.Spacing.FirstRound
import FortranLayout.Proofs.Spacing.LaterRounds
import FortranLayout.Proofs.SpacingLayout

/-!
# Spacing is done in one run

The four rounds act on the gaps of the store one after the other, so the whole pass applies one rule
to each gap; applying it again changes nothing (`SpacingRules.idempotentOn_ofElement`).
-/

namespace FortranLayout

open SpacingFrame
open Text (spread)

namespace SpacingRules

variable {w : SpacingFrame}

/-- The four rounds over the given nodes. -/
def rounds (r : SpacingRules) (order : List NodeId) (d : Draft) : Draft :=
  AdjacentKeyword.all.foldl (r.fourthRound order)
    (order.foldl r.thirdRound (order.foldl r.secondRound (order.foldl r.firstRound d)))

theorem apply_eq_rounds (r : SpacingRules) (f : Forest) :
    r.apply f = r.rounds f.preorder { forest := f.indexed } := rfl

theorem acts_rounds (ho : w.forest.Ordered) (hv : w.rules.validate = .ok ())
    (hs : w.rules.Settles w.forest) :
    w.Acts (w.forest.preorder.filter w.deferred)
      [] fun d => w.rules.rounds w.forest.preorder d := by
  have hlt : ∀ i ∈ w.forest.preorder, i < w.forest.size := fun i => (ho.mem_preorder i).mp
  have hfirst := acts_firstRounds ho hv hs hlt ho.preorder_sorted
  have hsecond : w.Acts [] [] fun d => w.forest.preorder.foldl w.rules.secondRound d :=
    Acts.foldl fun i hi => acts_secondRound ho hs (hlt i hi)
  have hthird : w.Acts [] [] fun d => w.forest.preorder.foldl w.rules.thirdRound d :=
    Acts.foldl fun i hi => acts_thirdRound ho hs (hlt i hi)
  have hfourth : w.Acts [] [] fun d =>
      AdjacentKeyword.all.foldl (w.rules.fourthRound w.forest.preorder) d :=
    Acts.foldl fun entry hentry => acts_fourthRound hentry w.forest.preorder
  exact ((hfirst.comp hsecond).comp hthird).comp hfourth

end SpacingRules

namespace SpacingFrame

variable {w : SpacingFrame}

/-- Before the first round, a tail that is not pending has no tabs, or keeps them. -/
theorem admits_indexed (hs : w.rules.Settles w.forest)
    (hmem : ∀ i, i < w.forest.size → i ∈ w.forest.preorder) :
    w.Admits (w.forest.preorder.filter w.deferred) w.gaps { forest := w.forest.indexed } := by
  refine ⟨.indexed w.forest, fun a ha => ?_, fun _ _ _ => Iff.rfl⟩
  rw [Forest.slot_indexed, w.spread_gaps]
  cases a with
  | text i => rfl
  | tail i =>
    rw [settled, content, Forest.slot, SpacingRules.expanded]
    by_cases htabs : w.rules.expandTabs = true
    · rw [if_pos htabs]
      split
      · rfl
      · rename_i hpending
        have hdeferred : w.deferred i = false := by
          simpa [hmem i ha] using hpending
        simp only [deferred, htabs, Bool.true_and, Bool.not_eq_false', Bool.and_eq_true, beq_iff_eq,
          List.any_eq_true, List.contains_iff_mem] at hdeferred
        obtain ⟨⟨hname, hpart⟩, p, hp, hjoined, hchild⟩ := hdeferred
        exact (Text.expandTabs_eq_self (hs.names hname htabs p hp hjoined i hchild hpart)).symm
    · rw [if_neg htabs, if_neg]
      intro hpending
      simp [deferred, htabs] at hpending

/-- After a run there are no tabs left to expand. -/
theorem Admits.again {pending : List NodeId} {γ : TextSlot → Nat → Nat} {d : Draft}
    (hd : w.Admits [] γ d) (htabs : ∀ i ∈ pending, w.rules.expandTabs = true) :
    w.Admits pending γ { forest := d.forest.indexed } := by
  refine ⟨hd.shape.trans (.indexed d.forest), fun a ha => ?_, hd.alike⟩
  rw [Forest.slot_indexed]
  cases a with
  | text i => exact hd.slot_eq (.text i) ha
  | tail i =>
    have htail : d.forest.slot (.tail i) = spread (w.skeleton (.tail i)) (γ (.tail i)) :=
      hd.tail_eq ha List.not_mem_nil
    rw [settled]
    split
    · rename_i hi
      rw [htail, Text.expandTabs_spread (w.inked _) (tab_not_mem_skeleton (htabs i hi) i)]
    · exact htail

end SpacingFrame

/-! ## The whole pass -/

namespace SpacingRules

/-- A second run with the same rules leaves every text and tail as the first has left it. -/
def IdempotentOn (r : SpacingRules) (f : Forest) : Prop :=
  ∃ d₁ d₂, updateSpacing r f = .ok d₁ ∧ updateSpacing r d₁.forest = .ok d₂ ∧
    ∀ i, d₂.forest.text i = d₁.forest.text i ∧ d₂.forest.tail i = d₁.forest.tail i

theorem idempotentOn_iff {r : SpacingRules} {f : Forest} (hv : r.validate = .ok ()) :
    r.IdempotentOn f ↔ ∀ i, (r.apply (r.apply f).forest).forest.text i = (r.apply f).forest.text i ∧
      (r.apply (r.apply f).forest).forest.tail i = (r.apply f).forest.tail i := by
  have hrun (g : Forest) : updateSpacing r g = .ok (r.apply g) := by
    rw [updateSpacing, hv]
    rfl
  constructor
  · rintro ⟨d₁, d₂, h₁, h₂, h⟩
    rw [hrun] at h₁ h₂
    cases h₁
    cases h₂
    exact h
  · intro h
    exact ⟨_, _, hrun f, hrun _, h⟩

theorem slot_apply_apply {r : SpacingRules} {f : Forest} (ho : f.Ordered) (hv : r.validate = .ok ())
    (hs : r.Settles f) {a : TextSlot} (ha : a.id < f.size) :
    (r.apply (r.apply f).forest).forest.slot a = (r.apply f).forest.slot a := by
  have hrelaid := r.relaid_apply f
  have horder : (r.apply f).forest.preorder = f.preorder :=
    Forest.preorder_congr hrelaid.size_eq hrelaid.children_eq
  have hstart := admits_indexed (w := ⟨r, f⟩) hs fun i => (ho.mem_preorder i).mpr
  have htwice := (acts_rounds (w := ⟨r, f⟩) ho hv hs).twice hstart
    (fun γ hγ => hγ.again fun i hi => (Bool.and_eq_true_iff.mp (List.mem_filter.mp hi).2).1) ha
  rw [apply_eq_rounds r (r.apply f).forest, horder]
  cases a with
  | text i => exact htwice
  | tail i =>
    simp only [settled, List.not_mem_nil, if_false] at htwice
    exact htwice

/-- One run is enough, whatever the rules, on the trees that they settle. -/
theorem idempotentOn_ofElement {r : SpacingRules} {e : Element} (hv : r.validate = .ok ())
    (hs : r.Settles (Forest.ofElement e)) : r.IdempotentOn (Forest.ofElement e) := by
  have ho := Forest.ordered_ofElement e
  rw [idempotentOn_iff hv]
  generalize Forest.ofElement e = f at ho hs ⊢
  intro i
  by_cases hi : i < f.size
  · have htext := slot_apply_apply (a := .text i) ho hv hs hi
    have htail := slot_apply_apply (a := .tail i) ho hv hs hi
    exact ⟨String.toList_inj.mp htext, String.toList_inj.mp htail⟩
  · -- Outside the store there is no text.
    have hfirst : (r.apply f).forest.size ≤ i := (r.relaid_apply f).size_eq ▸ Nat.le_of_not_lt hi
    have hsecond : (r.apply (r.apply f).forest).forest.size ≤ i :=
      (r.relaid_apply (r.apply f).forest).size_eq ▸ hfirst
    simp only [Forest.text, Forest.tail, Forest.node_of_le hfirst, Forest.node_of_le hsecond,
      and_self]

/-- An assignment with loose blanks and a tab. -/
def looseSum : Element where
  tag := "file"
  children :=
    [{ tag := "a-stmt"
       tail := " \n"
       children :=
        [{ tag := "E", text := "X" },
         { tag := "a", text := "=" },
         { tag := "op-E"
           children :=
            [{ tag := "E", text := "F( A ,B )" },
             { tag := "op", tail := "\t", children := [{ tag := "o", text := "+" }] },
             { tag := "E", text := "C" }] }] }]

theorem idempotentOn_looseSum :
    Settles {} (Forest.ofElement looseSum) ∧ IdempotentOn {} (Forest.ofElement looseSum) :=
  have hs : Settles {} (Forest.ofElement looseSum) :=
    ⟨by decide +kernel, by decide +kernel, by decide +kernel, by decide +kernel⟩
  ⟨hs, idempotentOn_ofElement rfl hs⟩

/-- A sum of which the second operand is on a line of its own. -/
def brokenSum : Element where
  tag := "file"
  children :=
    [{ tag := "op-E"
       children :=
        [{ tag := "E", text := "A" },
         { tag := "op", tail := "\n", children := [{ tag := "o", text := "+" }] },
         { tag := "E", text := "B" }] }]

/-- The store of that sum, with the blanks before the operator and before the second operand. -/
def brokenStore (before after : String) : Forest where
  nodes :=
    #[{ tag := "file", children := [1] }, { tag := "op-E", children := [2, 3, 5] },
      { tag := "E", text := "A", tail := before },
      { tag := "op", tail := "\n" ++ after, children := [4] },
      { tag := "o", text := "+" }, { tag := "E", text := "B" }]

set_option maxRecDepth 100000 in
/-- Each run puts one more blank before the second operand. -/
theorem not_idempotentOn_brokenSum : ¬ IdempotentOn {} (Forest.ofElement brokenSum) := by
  have hstore : Forest.ofElement brokenSum = brokenStore "" "" := by decide +kernel
  have hfirst : (apply {} (brokenStore "" "")).forest = (brokenStore " " " ").indexed := by
    decide +kernel
  have hsecond : (apply {} (brokenStore " " " ").indexed).forest.tail 3 ≠ "\n " := by decide +kernel
  rw [idempotentOn_iff rfl, hstore, hfirst]
  intro h
  exact hsecond (h 3).2

end SpacingRules

end FortranLayout
