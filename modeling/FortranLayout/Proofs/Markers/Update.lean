import FortranLayout.Continuation.Update
import FortranLayout.Proofs.LineLayout
import FortranLayout.Proofs.Markers.Insertion
import FortranLayout.Proofs.Markers.Refinement
import FortranLayout.Proofs.Markers.Removal

/-!
# Updating the markers of a whole tree

An update revises the markers below the root and then, if it is to align, changes blanks in tails.
Where no marker is removed the code stays as it is (`MarkerOptions.code_apply_of_keeps`). Where
markers are removed the code that goes with them is lost, and no other (`loss_updateContinuation`).
-/

namespace FortranLayout

open Forest

/-- What every visit keeps is kept by the whole run. `Q` is a property of the nodes that are gone
through. -/
theorem MarkerDraft.reviseWithin_induct {o : MarkerOptions} {P : MarkerDraft → Prop}
    {Q : NodeId → Prop}
    (step : ∀ (m : MarkerDraft) (p : NodeId) (pre : List NodeId) (c : NodeId) (post : List NodeId),
      P m → Q p → m.forest.children p = pre ++ c :: post →
        P (m.reviseChild o p pre.length c) ∧ Q c)
    (fuel : Nat) {i : NodeId} {m : MarkerDraft} (hm : P m) (hi : Q i) :
    P (reviseWithin o fuel i m) := by
  induction fuel generalizing i m with
  | zero => exact hm
  | succ fuel ih =>
    rw [reviseWithin]
    generalize (List.range (m.forest.children i).length).reverse = ks
    induction ks generalizing m with
    | nil => exact hm
    | cons k ks ihks =>
      rw [List.foldl_cons]
      split
      · exact ihks hm
      · rename_i c hc
        obtain ⟨hk, rfl⟩ := List.getElem?_eq_some_iff.mp hc
        have hsplit : m.forest.children i = (m.forest.children i).take k ++
            (m.forest.children i)[k] :: (m.forest.children i).drop (k + 1) := by
          rw [List.getElem_cons_drop, List.take_append_drop]
        obtain ⟨hvisit, hchild⟩ := step m i _ _ _ hm hi hsplit
        rw [List.length_take_of_le (Nat.le_of_lt hk)] at hvisit
        exact ihks (ih hvisit hchild)

/-- Without anything to insert or remove the store stays as it is. -/
theorem MarkerDraft.revise_eq_self {o : MarkerOptions} (hadd : o.addBegin = false)
    (hrem : ∀ ends, o.removes ends = false) (i : NodeId) (m : MarkerDraft) :
    MarkerDraft.revise o i m = m := by
  refine reviseWithin_induct (P := (· = m)) (Q := fun _ => True) ?_ _ rfl trivial
  rintro m' p pre c post rfl _ _
  refine ⟨?_, trivial⟩
  rw [reviseChild]
  split
  · simp only [hadd, hrem, Bool.and_false, Bool.false_eq_true, if_false]
  · rfl

theorem MarkerDraft.revise_spec_root {o : MarkerOptions} (ho : o.Consistent)
    {f : Forest} {s : Shape} (hf : f.Holds s) (hs : s.id = root) :
    ∃ s' : Shape, s'.id = root ∧
      Becomes { forest := f } (revise o root { forest := f }) s s' ((f.elementOf s).revised o)
        ((f.elementOf s).revise o).inserted ((f.elementOf s).revise o).removed := by
  obtain ⟨s', hb⟩ := revise_spec (m := { forest := f }) ho hf
  rw [hs] at hb
  exact ⟨s', hb.reshaped.id_eq.trans hs, hb⟩

namespace MarkerOptions

variable {o : MarkerOptions} {f : Forest} {s : Shape}

/-- Updating markers without aligning leaves a tree that is the revised one. -/
theorem revise_root (ho : o.Consistent) (hf : f.Holds s) (hs : s.id = root) :
    ∃ s', (MarkerDraft.revise o root { forest := f }).forest.Holds s' ∧ s'.id = root ∧
      (MarkerDraft.revise o root { forest := f }).forest.toElement = f.toElement.revised o := by
  obtain ⟨s', hid, hb⟩ := MarkerDraft.revise_spec_root ho hf hs
  refine ⟨s', hb.reshaped.holds, hid, ?_⟩
  rw [hb.reshaped.holds.toElement_eq hid, hb.element_eq, hf.toElement_eq hs]

/-- Aligning afterwards changes nothing but blanks in tails. -/
theorem relaid_apply (o : MarkerOptions) (i : NodeId) (f : Forest) :
    Relaid (fun _ => true) (fun c => !Text.isBlank c)
      (MarkerDraft.revise o i { forest := f }).forest (o.apply i f).forest := by
  rw [apply]
  split
  · have haligned := Alignment.realigned_alignBelow
      ((MarkerDraft.revise o i { forest := f }).forest.shape i)
      { forest := (MarkerDraft.revise o i { forest := f }).forest.indexed }
    exact (Relaid.indexed _).trans haligned
  · exact .refl _ _ _

/-- So a view that passes over blanks reads what the first round leaves. -/
theorem code_apply {v : View} (hblank : v.reads ' ' = false) (i : NodeId) (f : Forest) :
    (o.apply i f).forest.code v = (MarkerDraft.revise o i { forest := f }).forest.code v := by
  have hreads : ∀ c, v.reads c = true → (!Text.isBlank c) = true := by
    intro c hc
    rw [Bool.not_eq_true', Text.isBlank, beq_eq_false_iff_ne]
    rintro rfl
    rw [hblank] at hc
    cases hc
  exact ((o.relaid_apply i f).mono (fun _ _ => rfl) hreads).code_eq

theorem code_apply_of_keeps {v : View} (hskip : v.skipsText .continuation = true)
    (hblank : v.reads ' ' = false) (ho : ∀ ends, o.removes ends = false) (hf : f.Holds s)
    (hs : s.id = root) : (o.apply root f).forest.code v = f.code v := by
  have hconsistent : o.Consistent := fun _ => ho
  obtain ⟨_, _, _, helement⟩ := revise_root hconsistent hf hs
  rw [code_apply hblank, Forest.code, helement, Element.code_revised_of_keeps hskip hblank ho]
  rfl

end MarkerOptions

/-! ## Removal -/

theorem MarkerOptions.addBegin_eq_false {o : MarkerOptions} (hv : o.validate = .ok ())
    (hrem : o.removeAll = true ∨ o.removeBegin = true) : o.addBegin = false := by
  have hconsistent := consistent_of_validate hv
  rw [Bool.eq_false_iff]
  intro hadd
  have hfalse := hconsistent hadd false
  rw [removes, Bool.or_eq_false_iff, Bool.not_false, Bool.and_true] at hfalse
  rcases hrem with h | h
  · rw [h] at hfalse
    cases hfalse.1
  · rw [h] at hfalse
    cases hfalse.2

theorem MarkerOptions.loss_apply {o : MarkerOptions} (ho : o.addBegin = false) (e : Element) :
    Loss ((ofElement e).code .outsideComments)
      ((o.apply root (ofElement e)).forest.code .outsideComments) (e.lost o) := by
  have hconsistent : o.Consistent := fun hadd => by
    rw [ho] at hadd
    cases hadd
  obtain ⟨_, _, _, helement⟩ := revise_root hconsistent (holds_ofElement e) (e.id_shapeFrom 0)
  rw [code_apply (by decide), Forest.code, Forest.code, helement, toElement_ofElement]
  exact Element.loss_revised ho e

/-- Removing markers loses the code in the tails of the comments after them and the code below them,
and keeps the rest in order. So the code is kept exactly if there is none in those places. -/
theorem loss_updateContinuation {o : MarkerOptions} (hv : o.validate = .ok ())
    (hrem : o.removeAll = true ∨ o.removeBegin = true) (e : Element) :
    ∃ m, updateContinuation o root (ofElement e) = .ok m ∧
      Loss ((ofElement e).code .outsideComments) (m.forest.code .outsideComments) (e.lost o) ∧
      (m.forest.code .outsideComments = (ofElement e).code .outsideComments ↔ e.lost o = []) := by
  have hloss := MarkerOptions.loss_apply (MarkerOptions.addBegin_eq_false hv hrem) e
  refine ⟨o.apply root (ofElement e), ?_, hloss, hloss.eq_iff⟩
  rw [updateContinuation, hv]
  rfl

/-- A call whose closing parenthesis comes after a comment inside it. -/
def commentedCall : Element where
  tag := "file"
  children :=
    [{ tag := "call-stmt"
       text := "CALL FOO(A "
       tail := "\n"
       children :=
        [{ tag := "cnt", text := "&", tail := " " },
          { tag := "C", text := "! c", tail := "\n  )" }] }]

theorem loss_updateContinuation_commentedCall :
    (({ align := false, removeAll := true, addBegin := false } : MarkerOptions).validate = .ok ()) ∧
      ∃ m,
        updateContinuation { align := false, removeAll := true, addBegin := false } root
            (ofElement commentedCall) = .ok m ∧
          Loss ((ofElement commentedCall).code .outsideComments) (m.forest.code .outsideComments)
            (commentedCall.lost { align := false, removeAll := true, addBegin := false }) ∧
          (m.forest.code .outsideComments = (ofElement commentedCall).code .outsideComments ↔
            commentedCall.lost { align := false, removeAll := true, addBegin := false } = []) :=
  ⟨by decide, loss_updateContinuation (by decide) (Or.inl rfl) commentedCall⟩

/-- The closing parenthesis is lost with the comment. -/
theorem updateContinuation_commentedCall :
    ∃ m,
      updateContinuation { align := false, removeAll := true, addBegin := false } root
          (ofElement commentedCall) = .ok m ∧
        (ofElement commentedCall).code .outsideComments = "CALLFOO(A)".toList ∧
        m.forest.code .outsideComments = "CALLFOO(A".toList := by
  refine ⟨_, rfl, ?_, ?_⟩
  · decide +kernel
  · decide +kernel

end FortranLayout
