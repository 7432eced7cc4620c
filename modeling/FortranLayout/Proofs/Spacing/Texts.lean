import FortranLayout.Proofs.Spacing.Footprints

/-!
# Which texts spacing rewrites

A step of the spacing pass *rewords* the nodes whose texts it may change; the other texts stay
exactly as they are, blanks included. The first round rewords only the node it visits, if that is
code; the second round also the signs of assignments; the fourth the nodes that carry adjacent
keywords. The third round looks at no kind: it rewords the parent of a leading marker, be it a
string. So the text of a string, comment or directive is left alone exactly if it has no marker
after it, or ends as it would be made to end (`text_updateSpacing_nonCode`).
-/

namespace FortranLayout

open Text (endWith hasNewline)

/-- The nodes are the same, and so are the texts but those of nodes that are `touched`, given their
kind. -/
structure Draft.Rewords (touched : NodeId → Kind → Prop) (d d' : Draft) : Prop where
  shape : d.forest.SameShape d'.forest
  text_eq : ∀ j, ¬ touched j (d.forest.kind j) → d'.forest.text j = d.forest.text j

namespace Draft

variable {touched touched' : NodeId → Kind → Prop} {d d' d'' : Draft} {i : NodeId}

theorem Rewords.refl (d : Draft) : d.Rewords touched d := ⟨.refl _, fun _ _ => rfl⟩

theorem Rewords.trans (h : d.Rewords touched d') (h' : d'.Rewords touched d'') :
    d.Rewords touched d'' := by
  refine ⟨h.shape.trans h'.shape, fun j hj => ?_⟩
  rw [h'.text_eq j (by rwa [h.shape.kind_eq]), h.text_eq j hj]

theorem Rewords.mono (h : d.Rewords touched d') (hsub : ∀ j k, touched j k → touched' j k) :
    d.Rewords touched' d' :=
  ⟨h.shape, fun j hj => h.text_eq j fun ht => hj (hsub j _ ht)⟩

/-- The kinds of the nodes do not change from step to step. -/
theorem rewords_foldl {α : Type} {step : Draft → α → Draft} {xs : List α} (d : Draft)
    (h : ∀ x ∈ xs, ∀ d' : Draft, (∀ j, d'.forest.kind j = d.forest.kind j) →
      d'.Rewords touched (step d' x)) :
    d.Rewords touched (xs.foldl step d) := by
  induction xs generalizing d with
  | nil => exact .refl d
  | cons x xs ih =>
    obtain ⟨hx, hxs⟩ := List.forall_mem_cons.mp h
    have hfirst := hx d fun _ => rfl
    refine hfirst.trans (ih _ fun y hy d' hd' => hxs y hy d' fun j => ?_)
    rw [hd', hfirst.shape.kind_eq]

/-- An edit of slots, as to the texts. -/
theorem Edits.rewords {slots : TextSlot → Prop} (h : d.Edits slots d')
    (hsub : ∀ j, slots (.text j) → touched j (d.forest.kind j)) : d.Rewords touched d' :=
  ⟨h.shape, fun j hj => h.text_eq fun hslot => hj (hsub j hslot)⟩

end Draft

namespace SpacingRules

open Draft

variable (r : SpacingRules) (d : Draft) (i : NodeId)

/-! ## The four rounds -/

/-- The node that is visited, if it is code. -/
def codeAt (i : NodeId) (j : NodeId) (k : Kind) : Prop := j = i ∧ k.isNonCode = false

theorem rewords_firstRound : d.Rewords (codeAt i) (r.firstRound d i) :=
  (r.edits_firstRound (.refl _)).rewords fun _ ⟨hj, hcode⟩ => ⟨hj, hj ▸ hcode⟩

/-- The node that is visited, or the sign of an assignment; both are code. -/
def signOrCodeAt (i : NodeId) (j : NodeId) (k : Kind) : Prop :=
  (j = i ∨ k = .affectation) ∧ k.isNonCode = false

theorem rewords_secondRound : d.Rewords (signOrCodeAt i) (r.secondRound d i) :=
  (r.edits_secondRound (.refl _)).rewords fun _ => id

theorem rewords_markerGap (previous : Option NodeId) (marker : NodeId) :
    d.Rewords (fun j _ => previous = none ∧ j = i) (r.markerGap d i previous marker) := by
  have hedits : d.Edits (markerFootprint i previous marker) (r.markerGap d i previous marker) :=
    r.edits_markerGap d
  exact hedits.rewords fun _ => id

theorem rewords_fourthRound (order : List NodeId) (entry : AdjacentKeyword) :
    d.Rewords (fun _ k => k = entry.target.kindOf) (r.fourthRound order d entry) :=
  (r.edits_fourthRound (.refl _) order entry).rewords fun _ => id

end SpacingRules

/-! ## The text before a marker -/

/-- The text of the node ends at a continuation marker, its first child, on the same line. -/
def Forest.endsAtMarker (f : Forest) (i : NodeId) : Bool :=
  (f.firstChild? i).any (f.kind · == .continuation) && !hasNewline (f.text i).toList

/-- The text of a node with the blanks that the rules set before a marker. -/
def SpacingRules.textAtMarker (r : SpacingRules) (f : Forest) (i : NodeId) : List Char :=
  if f.endsAtMarker i then
    r.beforeEndMarker.count?.elim (f.text i).toList (endWith · (f.text i).toList)
  else (f.text i).toList

namespace SpacingRules

open Draft Forest

/-- A marker that has a sibling before it changes no text. -/
theorem rewords_laterMarkers (r : SpacingRules) (i : NodeId) {steps : List (Option NodeId × NodeId)}
    (h : ∀ s ∈ steps, s.1 ≠ none) (d : Draft) :
    d.Rewords (fun _ _ => False) (steps.foldl (fun d (previous, child) =>
      if d.forest.kind child == .continuation then r.markerGap d i previous child else d) d) := by
  refine rewords_foldl d fun step hstep d _ => ?_
  dsimp only
  split
  · exact (r.rewords_markerGap d i step.1 step.2).mono fun _ _ hnone => h step hstep hnone.1
  · exact .refl d

theorem text_thirdRound (r : SpacingRules) (d : Draft) (i : NodeId) :
    ((r.thirdRound d i).forest.text i).toList = r.textAtMarker d.forest i := by
  rw [thirdRound, textAtMarker, endsAtMarker, firstChild?]
  cases hchildren : d.forest.children i with
  | nil => rfl
  | cons c cs =>
    have hi : i < d.forest.size := lt_size_of_mem_children (hchildren ▸ List.mem_cons_self)
    have hsplit : withPrevious (c :: cs) = (none, c) :: ((c :: cs).map some).zip cs := rfl
    have hlater : ∀ s ∈ ((c :: cs).map some).zip cs, s.1 ≠ none := by
      intro s hs hnone
      obtain ⟨p, _, hp⟩ := List.mem_map.mp (List.of_mem_zip hs).1
      rw [hnone] at hp
      cases hp
    rw [hsplit, List.foldl_cons, (r.rewords_laterMarkers i hlater _).text_eq i not_false,
      List.head?_cons, Option.any_some]
    dsimp only
    cases d.forest.kind c == .continuation with
    | false => rfl
    | true =>
      rw [if_pos rfl, Bool.true_and, markerGap]
      cases hnewline : hasNewline (d.forest.text i).toList with
      | true =>
        rw [if_pos rfl]
        split
        · rfl
        · cases r.afterBeginMarker with
          | keep => rfl
          | exactly n => exact congrArg String.toList (text_editTail d c i _)
      | false =>
        rw [if_neg Bool.false_ne_true]
        cases r.beforeEndMarker with
        | keep => rfl
        | exactly n => exact slot_editSlot_self (a := .text i) hi

theorem textAtMarker_congr {r : SpacingRules} {f g : Forest} (h : f.SameShape g) {i : NodeId}
    (htext : g.text i = f.text i) : r.textAtMarker g i = r.textAtMarker f i := by
  have hends : g.endsAtMarker i = f.endsAtMarker i := by
    simp only [endsAtMarker, firstChild?, h.children_eq, h.kind_eq, htext]
  rw [textAtMarker, hends, htext, textAtMarker]

/-- The third round over nodes of which none comes twice. -/
theorem text_thirdRounds (r : SpacingRules) {order : List NodeId}
    (hnodup : order.Nodup) {i : NodeId} (hi : i ∈ order) (d : Draft) :
    d.forest.SameShape (order.foldl r.thirdRound d).forest ∧
      ((order.foldl r.thirdRound d).forest.text i).toList = r.textAtMarker d.forest i := by
  have hself : ¬ TextSlot.text i ≠ .text i := not_not_intro rfl
  have hother {f : Forest} {j : NodeId} (hj : j ≠ i) : ∀ a, thirdFootprint f j a → a ≠ .text i := by
    rintro a ha rfl
    exact hj ha.symm
  obtain ⟨d', hbefore, hafter⟩ := exists_visit hnodup hi (.refl d.forest)
    (fun _ hd => (r.edits_thirdRound hd).shape) fun _ _ hj _ hd =>
      (r.edits_thirdRound hd).mono (hother hj)
  refine ⟨(hbefore.shape.trans (r.edits_thirdRound hbefore.shape).shape).trans hafter.shape, ?_⟩
  rw [hafter.text_eq hself, text_thirdRound,
    textAtMarker_congr hbefore.shape (hbefore.text_eq hself)]

theorem isNonCode_kindOf (k : AdjacentKeyword) (hk : k ∈ AdjacentKeyword.all) :
    k.target.kindOf.isNonCode = false := by
  revert k
  decide

/-- What is not code is reworded in the third round only. -/
theorem text_apply_nonCode (r : SpacingRules) {f : Forest} (ho : f.Ordered) {i : NodeId}
    (hi : (f.kind i).isNonCode = true) :
    ((r.apply f).forest.text i).toList = r.textAtMarker f i := by
  have hlt : i < f.size := by
    refine Nat.lt_of_not_le fun hle => ?_
    rw [kind, node_of_le hle] at hi
    cases hi
  have hcode {d d' : Draft} (h : d.Rewords (fun _ k => k.isNonCode = false) d')
      (hd : f.SameShape d.forest) : f.SameShape d'.forest ∧ d'.forest.text i = d.forest.text i := by
    refine ⟨hd.trans h.shape, h.text_eq i ?_⟩
    simp [hd.kind_eq, hi]
  have hfirst (d : Draft) :
      d.Rewords (fun _ k => k.isNonCode = false) (f.preorder.foldl r.firstRound d) :=
    rewords_foldl d fun j _ d _ => (r.rewords_firstRound d j).mono fun _ _ h => h.2
  have hsecond (d : Draft) :
      d.Rewords (fun _ k => k.isNonCode = false) (f.preorder.foldl r.secondRound d) :=
    rewords_foldl d fun j _ d _ => (r.rewords_secondRound d j).mono fun _ _ h => h.2
  have hfourth (d : Draft) : d.Rewords (fun _ k => k.isNonCode = false)
      (AdjacentKeyword.all.foldl (r.fourthRound f.preorder) d) :=
    rewords_foldl d fun entry hentry d _ => (r.rewords_fourthRound d f.preorder entry).mono
      fun _ _ h => h ▸ isNonCode_kindOf entry hentry
  rw [apply_eq_rounds, rounds]
  obtain ⟨hshape₁, htext₁⟩ := hcode (hfirst { forest := f.indexed }) (.indexed f)
  generalize f.preorder.foldl r.firstRound { forest := f.indexed } = d₁ at hshape₁ htext₁
  obtain ⟨hshape₂, htext₂⟩ := hcode (hsecond d₁) hshape₁
  generalize f.preorder.foldl r.secondRound d₁ = d₂ at hshape₂ htext₂
  have htext : d₂.forest.text i = f.text i := by
    rw [htext₂, htext₁, text, node_indexed, text]
  obtain ⟨hshape₃, htext₃⟩ := r.text_thirdRounds ho.nodup_preorder ((ho.mem_preorder i).mpr hlt) d₂
  rw [(hcode (hfourth _) (hshape₂.trans hshape₃)).2, htext₃, textAtMarker_congr hshape₂ htext]

theorem updateSpacing_of_validate {r : SpacingRules} (hv : r.validate = .ok ()) (f : Forest) :
    updateSpacing r f = .ok (r.apply f) := by
  rw [updateSpacing, hv]
  rfl

end SpacingRules

open Forest

/-- The text of a comment, directive or string is as it was, but for the blanks before a marker that
follows it; it is left alone exactly if it already ends with as many blanks as the rules set there.
-/
theorem text_updateSpacing_nonCode {r : SpacingRules} (hv : r.validate = .ok ()) (e : Element) :
    ∃ d, updateSpacing r (ofElement e) = .ok d ∧ ∀ i, ((ofElement e).kind i).isNonCode = true →
      (d.forest.text i).toList = r.textAtMarker (ofElement e) i ∧
      (d.forest.text i = (ofElement e).text i ↔
        ∀ n, r.beforeEndMarker = .exactly n → (ofElement e).endsAtMarker i = true →
          endWith n ((ofElement e).text i).toList = ((ofElement e).text i).toList) := by
  refine ⟨_, SpacingRules.updateSpacing_of_validate hv _, fun i hi => ?_⟩
  have htext := r.text_apply_nonCode (ordered_ofElement e) hi
  refine ⟨htext, ?_⟩
  rw [← String.toList_inj, htext, SpacingRules.textAtMarker]
  cases (ofElement e).endsAtMarker i with
  | false => simp
  | true =>
    cases r.beforeEndMarker with
    | keep => simp [Width.count?]
    | exactly n => simp [Width.count?]

/-- A string that goes on in the next line, behind the given text. -/
def continuedString (text : String) : Element where
  tag := "file"
  children :=
    [{ tag := "print-stmt"
       text := "PRINT*, "
       tail := "\n"
       children :=
        [{ tag := "S"
           text := text
           children := [{ tag := "cnt", text := "&", tail := "\ndef'" }] }] }]

theorem text_updateSpacing_nonCode_continuedString :
    SpacingRules.validate {} = .ok () ∧
      ∃ d, updateSpacing {} (ofElement (continuedString "'a, (b) ")) = .ok d ∧
        (ofElement (continuedString "'a, (b) ")).kind 2 = .stringLit ∧
        d.forest.text 2 = "'a, (b) " := by
  obtain ⟨d, hd, htext⟩ := text_updateSpacing_nonCode (r := {}) rfl (continuedString "'a, (b) ")
  have hkind : (ofElement (continuedString "'a, (b) ")).kind 2 = .stringLit := by decide +kernel
  refine ⟨rfl, d, hd, hkind,
    ((htext 2 (by rw [hkind]; rfl)).2.mpr fun n hn _ => ?_).trans (by decide +kernel)⟩
  cases hn
  decide +kernel

/-- The blanks that the string has before the marker are lost but for one. -/
theorem text_updateSpacing_paddedString :
    ∃ d, updateSpacing {} (ofElement (continuedString "'abc   ")) = .ok d ∧
      (ofElement (continuedString "'abc   ")).kind 2 = .stringLit ∧
      (ofElement (continuedString "'abc   ")).text 2 = "'abc   " ∧ d.forest.text 2 = "'abc " ∧
      d.forest.source = "PRINT*, 'abc &\ndef'\n" := by
  refine ⟨_, SpacingRules.updateSpacing_of_validate rfl _, ?_, ?_, ?_, ?_⟩ <;> decide +kernel

end FortranLayout
