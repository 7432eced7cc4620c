import FortranLayout.Proofs.Markers.DirectiveLines
import FortranLayout.Proofs.Markers.Visits
import Mathlib.Algebra.BigOperators.Group.List.Basic
import Mathlib.Algebra.GroupWithZero.Nat

/-!
# Removing all markers is complete

When all markers are removed, those that stay are directly before a directive (`guarded_sweep`),
however many comments and markers went between the two. If markers and comments have nothing below
them, no other marker gets lost on the way: the number of markers in the tree falls by the number
that is reported (`Forest.removed_add_markers`). What is left has nothing to remove
(`Forest.removed_eq_zero`).
-/

namespace FortranLayout

section Lists

variable {α : Type} {kind : α → Kind} {cs : List α}

/-- Each marker of a list is directly before a directive. -/
def Guarded (kind : α → Kind) (cs : List α) : Prop :=
  EachNext (fun c next => kind c = .continuation → next.any (kind · == .directive) = true) cs

theorem leadsToDirective_of_head? (h : cs.head?.any (kind · == .directive) = true) :
    leadsToDirective kind cs = true := by
  cases cs with
  | nil => cases h
  | cons c cs =>
    rw [List.head?_cons, Option.any_some] at h
    rw [leadsToDirective_cons, h, Bool.true_or]

/-- Without the comments at its beginning, a list that leads to a directive begins with it. -/
theorem head?_pruneComments (h : leadsToDirective kind cs = true) :
    (pruneComments kind true cs).head?.any (kind · == .directive) = true := by
  induction cs with
  | nil => cases h
  | cons c cs ih =>
    rw [leadsToDirective_cons] at h
    by_cases hc : kind c = .comment
    · rw [hc] at h
      rw [pruneComments_cons_comment hc]
      exact ih h
    · rw [beq_eq_false_iff_ne.mpr hc, Bool.false_and, Bool.or_false] at h
      rw [pruneComments_cons hc, List.head?_cons, Option.any_some, h]

theorem Guarded.pruneComments (h : Guarded kind cs) :
    Guarded kind (pruneComments kind true cs) := by
  induction cs with
  | nil => exact h
  | cons c cs ih =>
    by_cases hc : kind c = .comment
    · rw [pruneComments_cons_comment hc]
      exact ih h.2
    · rw [pruneComments_cons hc, Bool.true_and]
      cases hd : kind c == .directive with
      | true =>
        refine ⟨fun hm => ?_, ih h.2⟩
        rw [hm] at hd
        cases hd
      | false => exact h

/-- The induction is on the items still to be visited: those after them are guarded already. -/
theorem guarded_sweep (kind : α → Kind) (cs : List α) : Guarded kind (sweep kind cs) := by
  induction cs with
  | nil => trivial
  | cons c cs ih =>
    rw [sweep, List.foldr_cons, ← sweep, sweepOne]
    by_cases hc : kind c = .continuation
    · rw [if_pos (beq_iff_eq.mpr hc)]
      split
      · rename_i hleads
        exact ⟨fun _ => head?_pruneComments hleads, ih.pruneComments⟩
      · exact ih.pruneComments
    · rw [if_neg (by rwa [beq_iff_eq])]
      exact ⟨fun h => absurd h hc, ih⟩

/-- Comments that count for nothing may go. -/
theorem sum_pruneComments {weight : α → Nat} (h : ∀ c ∈ cs, kind c = .comment → weight c = 0) :
    ((pruneComments kind true cs).map weight).sum = (cs.map weight).sum := by
  induction cs with
  | nil => rfl
  | cons c cs ih =>
    have ih := ih fun d hd => h d (List.mem_cons_of_mem c hd)
    by_cases hc : kind c = .comment
    · rw [pruneComments_cons_comment hc, ih, List.map_cons, List.sum_cons,
        h c List.mem_cons_self hc, Nat.zero_add]
    · rw [pruneComments_cons hc, Bool.true_and, List.map_cons, List.map_cons,
        List.sum_cons, List.sum_cons]
      cases kind c == .directive with
      | true => rw [ih]
      | false => rfl

end Lists

/-! ## Counting markers -/

namespace Shape

variable {kind : NodeId → Kind}

/-- The number of markers among the nodes of a shape. -/
def markers (kind : NodeId → Kind) (s : Shape) : Nat := s.preorder.countP (kind · == .continuation)

theorem markers_node (i : NodeId) (cs : List Shape) :
    (node i cs).markers kind = (cs.map (markers kind)).sum + if kind i == .continuation then 1
      else 0 := by
  rw [markers, preorder_node, List.countP_cons, List.countP_flatMap]
  rfl

theorem markers_leaf (i : NodeId) :
    (node i []).markers kind = if kind i == .continuation then 1 else 0 := by
  rw [markers_node, List.map_nil, List.sum_nil, Nat.zero_add]

theorem swept_leaf (i : NodeId) : (node i []).swept kind = node i [] := by
  rw [swept_node, List.map_nil]
  rfl

end Shape

namespace Forest

open Element

variable {o : MarkerOptions} {f : Forest} {s c : Shape} {cs : List Shape}

/-- What removing all markers counts in a list of elements, the first of which is visited last. -/
theorem removed_cons (hadd : o.addBegin = false) (hall : o.removeAll = true)
    (f : Forest) (c : Shape) (cs : List Shape) :
    (reviseAll o {} ((c :: cs).map f.elementOf)).removed =
      (if f.kind c.id == .continuation && !leadsToDirective (fun d => f.kind d.id) cs then 1
        else 0) +
        ((f.elementOf c).revise o).removed + (reviseAll o {} (cs.map f.elementOf)).removed := by
  have hdrops := dropsMarker_elementOf hadd hall f (f.elementOf c).tail.toList cs
  rw [List.map_cons, reviseAll, Revision.cons, MarkerOptions.outcomeOf, kind_elementOf]
  dsimp only
  cases hk : f.kind c.id == .continuation with
  | false => rfl
  | true =>
    rw [if_pos rfl, Bool.true_and, ← hdrops]
    cases hd :
        o.dropsMarker ((f.elementOf c).tail.toList ++ (reviseAll o {} (cs.map f.elementOf)).lead)
        (reviseAll o {} (cs.map f.elementOf)).elements with
    | true => rw [MarkerOptions.outcome_of_drops hadd hd, if_pos rfl]
    | false =>
      rw [MarkerOptions.outcome_of_not_drops hadd hd, if_neg Bool.false_ne_true]
      rfl

/-- Comments and markers have nothing below them. -/
def LeafNotes (f : Forest) : Prop :=
  ∀ i, f.kind i = .comment ∨ f.kind i = .continuation → f.children i = []

theorem LeafNotes.eq_leaf (hf : f.LeafNotes) (hc : f.Carries c)
    (hk : f.kind c.id = .comment ∨ f.kind c.id = .continuation) : c = .node c.id [] := by
  obtain ⟨i, cs⟩ := c
  have hchildren := (carries_node.mp hc).2.1
  rw [Shape.id_node] at hk
  rw [hf i hk, eq_comm, List.map_eq_nil_iff] at hchildren
  rw [Shape.id_node, hchildren]

/-- The markers that are left and those that were counted make up those that were there. -/
theorem removed_add_markers_all (hadd : o.addBegin = false) (hall : o.removeAll = true)
    (hf : f.LeafNotes) (hcs : ∀ c ∈ cs, f.Carries c)
    (ih : ∀ c ∈ cs,
      ((f.elementOf c).revise o).removed + (c.swept f.kind).markers f.kind = c.markers f.kind) :
    (reviseAll o {} (cs.map f.elementOf)).removed +
        ((sweep (fun c => f.kind c.id) (cs.map (Shape.swept f.kind))).map
          (Shape.markers f.kind)).sum =
      (cs.map (Shape.markers f.kind)).sum := by
  induction cs with
  | nil => rfl
  | cons c cs ihcs =>
    have hrest := ihcs (fun d hd => hcs d (List.mem_cons_of_mem c hd)) fun d hd =>
      ih d (List.mem_cons_of_mem c hd)
    have hfirst := ih c List.mem_cons_self
    have hleads := leadsToDirective_swept f cs
    -- No marker goes with a comment.
    have hprune : ((pruneComments (fun c => f.kind c.id) true
        (sweep (fun c => f.kind c.id) (cs.map (Shape.swept f.kind)))).map
          (Shape.markers f.kind)).sum = _ :=
      sum_pruneComments fun d hleft hcomment => by
        obtain ⟨d, hd, rfl⟩ := List.mem_map.mp ((sweep_sublist _).subset hleft)
        rw [Shape.id_swept] at hcomment
        rw [hf.eq_leaf (hcs d (List.mem_cons_of_mem c hd)) (.inl hcomment), Shape.swept_leaf,
          Shape.markers_leaf, hcomment]
        rfl
    rw [removed_cons hadd hall, List.map_cons, List.map_cons, List.sum_cons, sweep,
      List.foldr_cons, ← sweep, sweepOne, Shape.id_swept, hleads]
    cases hk : f.kind c.id == .continuation with
    | false =>
      rw [if_neg Bool.false_ne_true, List.map_cons, List.sum_cons, Bool.false_and,
        if_neg Bool.false_ne_true]
      omega
    | true =>
      have hleaf := hf.eq_leaf (hcs c List.mem_cons_self) (.inr (beq_iff_eq.mp hk))
      have hone : (c.swept f.kind).markers f.kind = 1 := by
        rw [hleaf, Shape.swept_leaf, Shape.markers_leaf, hk, if_pos rfl]
      have hone' : c.markers f.kind = 1 := by
        rw [hleaf, Shape.markers_leaf, hk, if_pos rfl]
      rw [if_pos rfl, Bool.true_and]
      cases leadsToDirective (fun d => f.kind d.id) cs with
      | true =>
        rw [if_pos rfl, Bool.not_true, if_neg Bool.false_ne_true, List.map_cons,
          List.sum_cons, hprune]
        omega
      | false =>
        rw [if_neg Bool.false_ne_true, Bool.not_false, if_pos rfl, hprune]
        omega

theorem removed_add_markers (hadd : o.addBegin = false) (hall : o.removeAll = true)
    (hf : f.LeafNotes) (hs : f.Carries s) :
    ((f.elementOf s).revise o).removed + (s.swept f.kind).markers f.kind = s.markers f.kind := by
  induction s using Shape.induct with
  | h i cs ih =>
    have hcs := (carries_node.mp hs).2.2
    have hbelow := removed_add_markers_all hadd hall hf hcs fun c hc => ih c hc (hcs c hc)
    rw [elementOf_node, revise_mk, Shape.swept_node, Shape.markers_node, Shape.markers_node]
    omega

/-- Where each marker is directly before a directive, nothing is removed. -/
theorem removed_eq_zero (hadd : o.addBegin = false) (hall : o.removeAll = true)
    (hguarded : ∀ p, Guarded f.kind (f.children p)) (hs : f.Carries s) :
    ((f.elementOf s).revise o).removed = 0 := by
  induction s using Shape.induct with
  | h i cs ih =>
    obtain ⟨-, hchildren, hcs⟩ := carries_node.mp hs
    have hlist := hguarded i
    rw [hchildren] at hlist
    rw [elementOf_node, revise_mk]
    clear hs hchildren
    induction cs with
    | nil => rfl
    | cons c cs ihcs =>
      rw [removed_cons hadd hall, ih c List.mem_cons_self (hcs c List.mem_cons_self),
        ihcs (fun d hd => ih d (List.mem_cons_of_mem c hd))
          (fun d hd => hcs d (List.mem_cons_of_mem c hd)) hlist.2]
      have hnext := hlist.1
      cases hk : f.kind c.id == .continuation with
      | false => rfl
      | true =>
        have hleads := leadsToDirective_of_head? (hnext (beq_iff_eq.mp hk))
        rw [leadsToDirective_map] at hleads
        rw [hleads]
        rfl

end Forest

open Forest

/-! ## The update -/

theorem updateContinuation_of_not_align {o : MarkerOptions} (halign : o.align = false)
    (hadd : o.addBegin = false) (i : NodeId) (f : Forest) :
    updateContinuation o i f = .ok (MarkerDraft.revise o i { forest := f }) := by
  have hvalid : o.validate = .ok () := by
    rw [MarkerOptions.validate, halign, hadd]
    rfl
  have happly : o.apply i f = MarkerDraft.revise o i { forest := f } := by
    rw [MarkerOptions.apply, halign]
    rfl
  rw [updateContinuation, hvalid, ← happly]
  rfl

/-- After all markers are removed from a tree in which comments and markers are leaves, each marker
below a node is directly before a directive, the number of markers has fallen by the number that is
reported, and removing them once more, also with another wish for begin markers, removes none. -/
theorem updateContinuation_removeAll {o : MarkerOptions} (hall : o.removeAll = true)
    (halign : o.align = false)
    (hadd : o.addBegin = false) (e : Element) (hleaf : (ofElement e).LeafNotes) :
    ∃ m, updateContinuation o root (ofElement e) = .ok m ∧
      (∀ p pre i post, m.forest.children p = pre ++ i :: post → m.forest.kind i = .continuation →
        post.head?.any (m.forest.kind · == .directive) = true) ∧
      m.report.removed + m.forest.preorder.countP (m.forest.kind · == .continuation) =
        (ofElement e).preorder.countP ((ofElement e).kind · == .continuation) ∧
      ∀ o' : MarkerOptions, o'.removeAll = true → o'.align = false → o'.addBegin = false →
        ∃ m', updateContinuation o' root m.forest = .ok m' ∧ m'.report.removed = 0 := by
  have hheld := holds_ofElement e
  have hid : (e.shapeFrom 0).id = root := e.id_shapeFrom 0
  have hid' : ((e.shapeFrom 0).swept (ofElement e).kind).id = root := (Shape.id_swept _).trans hid
  have hsweeps :
      (ofElement e).Sweeps
        (MarkerDraft.revise o (e.shapeFrom 0).id { forest := ofElement e }).forest
      (e.shapeFrom 0).preorder :=
    MarkerDraft.sweepsWithin hadd hall (ofElement e).size (e.shapeFrom 0) { forest := ofElement e }
      hheld.height_le hheld
  have hswept := (MarkerDraft.sweeps_revise (m := { forest := ofElement e }) hadd hall hheld).1
  obtain ⟨s, hbecomes⟩ := MarkerDraft.revise_spec (m := { forest := ofElement e })
    (MarkerOptions.consistent_of_addBegin hadd) hheld
  have hremoved := hbecomes.removed_eq
  have hcount := removed_add_markers hadd hall hleaf hheld.carries
  rw [hid] at hsweeps hswept hremoved
  refine ⟨_, updateContinuation_of_not_align halign hadd root (ofElement e), ?_⟩
  generalize MarkerDraft.revise o root { forest := ofElement e } = m at hsweeps hswept hremoved ⊢
  have hguarded : ∀ p, Guarded m.forest.kind (m.forest.children p) := fun p => by
    rw [hsweeps.kind_eq]
    rcases Nat.lt_or_ge p (ofElement e).size with hlt | hge
    · rw [hsweeps.swept p (mem_preorder_of_lt hlt)]
      exact guarded_sweep _ _
    · rw [children, node_of_le (hsweeps.size_eq.symm ▸ hge)]
      trivial
  refine ⟨fun p pre i post hchildren hmarker => ?_, ?_, fun o' hall' halign' hadd' => ?_⟩
  · have hlist := hguarded p
    rw [hchildren] at hlist
    exact hlist.at_split hmarker
  · rw [hswept.preorder_eq hid', hheld.preorder_eq hid, hsweeps.kind_eq, hremoved, Nat.zero_add]
    exact hcount
  · refine ⟨_, updateContinuation_of_not_align halign' hadd' root m.forest, ?_⟩
    obtain ⟨s', hbecomes'⟩ := MarkerDraft.revise_spec (m := { forest := m.forest })
      (MarkerOptions.consistent_of_addBegin hadd') hswept
    have hremoved' := hbecomes'.removed_eq
    rw [hid', removed_eq_zero hadd' hall' hguarded hswept.carries] at hremoved'
    exact hremoved'

/-- A call with a marker before a directive, and one before a comment. -/
def guardedArguments : Element where
  tag := "file"
  children :=
    [{ tag := "call-stmt"
       text := "CALL FOO(A, "
       tail := "\n"
       children :=
        [{ tag := "cnt", text := "&", tail := "\n" },
         { tag := "cpp", text := "#ifdef B", tail := "\n" },
         { tag := "arg", text := "B, " },
         { tag := "cnt", text := "&", tail := " " },
         { tag := "C", text := "! last", tail := "\n" },
         { tag := "arg", text := "C)" }] }]

theorem leafNotes_ofElement {e : Element}
    (h : ∀ i : NodeId, i < (ofElement e).size → (ofElement e).kind i = .comment ∨
      (ofElement e).kind i = .continuation →
      (ofElement e).children i = []) : (ofElement e).LeafNotes := fun i hk => by
  rcases Nat.lt_or_ge i (ofElement e).size with hlt | hge
  · exact h i hlt hk
  · rw [children, node_of_le hge]
    rfl

theorem updateContinuation_removeAll_guardedArguments :
    (ofElement guardedArguments).LeafNotes ∧
      ∃ m, updateContinuation .removeAllOnly root (ofElement guardedArguments) = .ok m ∧
        m.report.removed + m.forest.preorder.countP (m.forest.kind · == .continuation) = 2 ∧
        ∃ m', updateContinuation .removeAllOnly root m.forest = .ok m' ∧ m'.report.removed = 0 := by
  have hleaf : (ofElement guardedArguments).LeafNotes := leafNotes_ofElement (by decide +kernel)
  obtain ⟨m, hm, -, hcount, hagain⟩ :=
    updateContinuation_removeAll (o := .removeAllOnly) rfl rfl rfl guardedArguments hleaf
  exact ⟨hleaf, m, hm, hcount.trans (by decide +kernel), hagain .removeAllOnly rfl rfl rfl⟩

/-- A marker that is the whole tree. -/
def loneMarker : Element := { tag := "cnt", text := "&" }

/-- Only what is below a node can be taken out, so a marker at the top stays, and no directive is
behind it. -/
theorem loneMarker_stays :
    (ofElement loneMarker).LeafNotes ∧
      ∃ m, updateContinuation .removeAllOnly root (ofElement loneMarker) = .ok m ∧
        root ∈ m.forest.preorder ∧ m.forest.kind root = .continuation ∧
        ¬ ∃ p pre d post,
          m.forest.children p = pre ++ root :: d :: post ∧ m.forest.kind d = .directive := by
  refine ⟨leafNotes_ofElement (by decide +kernel), _,
    updateContinuation_of_not_align rfl rfl _ _, ?_⟩
  generalize hm : MarkerDraft.revise .removeAllOnly root { forest := ofElement loneMarker } = m
  have hforest : m.forest = ofElement loneMarker := by
    rw [← hm]
    decide +kernel
  rw [hforest]
  refine ⟨by decide +kernel, by decide +kernel, ?_⟩
  rintro ⟨p, pre, d, post, hchildren, -⟩
  have hp : p < (ofElement loneMarker).size :=
    lt_size_of_mem_children (hchildren ▸ List.mem_append_right pre List.mem_cons_self)
  have hnone : ∀ q : NodeId, q < (ofElement loneMarker).size →
      (ofElement loneMarker).children q = [] := by
    decide +kernel
  rw [hnone p hp] at hchildren
  exact List.append_ne_nil_of_right_ne_nil pre (List.cons_ne_nil root _) hchildren.symm

end FortranLayout
