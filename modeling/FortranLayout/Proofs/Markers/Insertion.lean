import FortranLayout.Proofs.Markers.Revision

/-!
# Inserting markers keeps the code

Where no marker is removed, revising an element moves code only from the end of a tail to the marker
directly after it. A view that passes over the text of markers reads the same before and after
(`Element.code_revised_of_keeps`).
-/

namespace FortranLayout

namespace Element

variable {v : View} {o : MarkerOptions}

/-- A new marker is read as its tail. -/
theorem code_marker (hskip : v.skipsText .continuation = true) (t : List Char) :
    (marker t).code v = t.filter v.reads := by
  have hkind : (marker t).kind = .continuation := rfl
  rw [code_eq, hkind, ownCode, hskip, Bool.or_true, if_pos rfl]
  simp [marker]

/-- Cutting a text at its first code loses nothing. -/
theorem filter_layoutBefore_append (v : View) (t : List Char) :
    (layoutBefore t).filter v.reads ++ (codeFrom t).filter v.reads = t.filter v.reads := by
  rw [← List.filter_append, layoutBefore_append_codeFrom]

theorem flatMap_code_beginAfter (hskip : v.skipsText .continuation = true)
    (hblank : v.reads ' ' = false) (cs : List Element) :
    (MarkerOutcome.beginAfter cs).flatMap (code v) = cs.flatMap (code v) := by
  rcases List.eq_nil_or_concat cs with rfl | ⟨cs, last, rfl⟩
  · simp [MarkerOutcome.beginAfter, code_marker hskip, hblank]
  · have hcut : (last.content v ++ v.read (String.ofList (layoutBefore last.tail.toList))) ++
        (' ' :: codeFrom last.tail.toList).filter v.reads = last.code v := by
      rw [List.filter_cons_of_neg (by simp [hblank]), View.read_ofList, List.append_assoc,
        filter_layoutBefore_append, code_eq_content]
      rfl
    simp only [MarkerOutcome.beginAfter, List.concat_eq_append, List.getLast?_concat,
      List.dropLast_concat, List.flatMap_append, List.flatMap_cons, List.flatMap_nil,
      List.append_nil, code_with_tail, code_marker hskip, hcut]

/-- A marker that stays, with the elements after it. -/
theorem read_addBegin (hskip : v.skipsText .continuation = true) (hblank : v.reads ' ' = false)
    (t : List Char) (es : List Element) :
    ∃ t', (MarkerOutcome.addBegin t es).tail? = some t' ∧ (MarkerOutcome.addBegin t es).lead = [] ∧
      t'.filter v.reads ++ (MarkerOutcome.addBegin t es).after.flatMap (code v) =
        t.filter v.reads ++ es.flatMap (code v) := by
  rw [MarkerOutcome.addBegin]
  split
  · refine ⟨layoutBefore t, rfl, rfl, ?_⟩
    rw [List.flatMap_cons, code_marker hskip, List.filter_cons_of_neg (by simp [hblank]),
      ← List.append_assoc, filter_layoutBefore_append]
  · split
    · refine ⟨t, rfl, rfl, ?_⟩
      rw [List.flatMap_append, flatMap_code_beginAfter hskip hblank, ← List.flatMap_append,
        List.takeWhile_append_dropWhile]
    · exact ⟨t, rfl, rfl, rfl⟩

theorem read_outcomeOf (hskip : v.skipsText .continuation = true) (hblank : v.reads ' ' = false)
    (ho : ∀ ends, o.removes ends = false) (k : Kind) (t : List Char) (es : List Element) :
    ∃ t', (o.outcomeOf k t es).tail? = some t' ∧ (o.outcomeOf k t es).lead = [] ∧
      t'.filter v.reads ++ (o.outcomeOf k t es).after.flatMap (code v) =
        t.filter v.reads ++ es.flatMap (code v) := by
  rw [MarkerOptions.outcomeOf]
  split
  · rw [MarkerOptions.outcome, ho]
    split
    · exact read_addBegin hskip hblank t es
    · exact ⟨t, rfl, rfl, rfl⟩
  · exact ⟨t, rfl, rfl, rfl⟩

/-- One more element before those that are revised. -/
theorem code_cons (hskip : v.skipsText .continuation = true) (hblank : v.reads ' ' = false)
    (ho : ∀ ends, o.removes ends = false) (e : Element) {after : Revision}
    (hcontent : (e.revised o).content v = e.content v) (hafter : after.lead = []) :
    (Revision.cons o e (e.revise o) after).lead = [] ∧
      (Revision.cons o e (e.revise o) after).elements.flatMap (code v) =
        e.code v ++ after.elements.flatMap (code v) := by
  obtain ⟨t, htail, hlead, hread⟩ :=
    read_outcomeOf hskip hblank ho e.kind (e.tail.toList ++ after.lead) after.elements
  refine ⟨hlead, ?_⟩
  have hself : Element.code v
      { e with
        text := e.text ++ String.ofList (e.revise o).lead
        tail := String.ofList t
        children := (e.revise o).elements } = e.content v ++ t.filter v.reads := by
    rw [← hcontent, ← View.read_ofList]
    exact code_with_tail v (e.revised o) _
  rw [hafter, List.append_nil] at hread htail
  simp only [Revision.cons, hafter, List.append_nil, htail, Option.map_some, Option.toList_some,
    List.cons_append, List.nil_append, List.flatMap_cons, hself]
  rw [List.append_assoc, hread, ← List.append_assoc, code_eq_content]
  rfl

/-- A whole list of elements, each of which keeps its content. -/
theorem code_reviseAll (hskip : v.skipsText .continuation = true) (hblank : v.reads ' ' = false)
    (ho : ∀ ends, o.removes ends = false) {after : Revision} (hafter : after.lead = [])
    (es : List Element) (hes : ∀ e ∈ es, (e.revised o).content v = e.content v) :
    (reviseAll o after es).lead = [] ∧
      (reviseAll o after es).elements.flatMap (code v) =
        es.flatMap (code v) ++ after.elements.flatMap (code v) := by
  induction es with
  | nil => exact ⟨hafter, rfl⟩
  | cons e es ih =>
    obtain ⟨hlead, helements⟩ := ih fun d hd => hes d (List.mem_cons_of_mem _ hd)
    have hcons := code_cons hskip hblank ho e (hes e List.mem_cons_self) hlead
    rw [reviseAll]
    refine ⟨hcons.1, ?_⟩
    rw [hcons.2, helements, List.flatMap_cons, List.append_assoc]

theorem content_revised (hskip : v.skipsText .continuation = true) (hblank : v.reads ' ' = false)
    (ho : ∀ ends, o.removes ends = false) (e : Element) :
    (e.revised o).content v = e.content v := by
  induction e using Element.induct with
  | h tag text tail cs ih =>
    obtain ⟨hlead, helements⟩ :=
      code_reviseAll hskip hblank ho (rfl : ({} : Revision).lead = []) cs ih
    rw [List.flatMap_nil, List.append_nil] at helements
    rw [revised, revise_mk, content, content, helements, hlead, String.ofList_nil,
      String.append_empty]
    rfl

/-- Where no marker is removed, the code stays as it is. -/
theorem code_revised_of_keeps (hskip : v.skipsText .continuation = true)
    (hblank : v.reads ' ' = false) (ho : ∀ ends, o.removes ends = false) (e : Element) :
    (e.revised o).code v = e.code v := by
  rw [code_eq_content, content_revised hskip hblank ho, code_eq_content]
  rfl

end Element

end FortranLayout
