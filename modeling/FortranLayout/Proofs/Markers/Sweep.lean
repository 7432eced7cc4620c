import FortranLayout.Proofs.Markers.Update

/-!
# The nodes that removing all markers leaves

When all markers are removed, which children of a node stay depends on their kinds only: a marker
goes unless a directive is in the run of comments and directives after it, and the comments of that
run go in any case. So the tree that is left is the tree before, swept at every node
(`MarkerDraft.sweeps_revise`). The numbers of the nodes stay, which the revision of elements does
not show.
-/

namespace FortranLayout

section Lists

variable {α β : Type} (kind : α → Kind)

/-- What is left of `c` and the items after it. -/
def sweepOne (c : α) (cs : List α) : List α :=
  if kind c == .continuation then
    if leadsToDirective kind cs then c :: pruneComments kind true cs else pruneComments kind true cs
  else c :: cs

/-- What is left of a list, from the last item to the first. -/
def sweep (cs : List α) : List α := cs.foldr (sweepOne kind) []

theorem sweepOne_map (kind : β → Kind) (g : α → β) (c : α) (cs : List α) :
    sweepOne kind (g c) (cs.map g) = (sweepOne (fun c => kind (g c)) c cs).map g := by
  rw [sweepOne, sweepOne, leadsToDirective_map, pruneComments_map]
  split
  · split <;> rfl
  · rfl

theorem sweep_map (kind : β → Kind) (g : α → β) (cs : List α) :
    sweep kind (cs.map g) = (sweep (fun c => kind (g c)) cs).map g := by
  induction cs with
  | nil => rfl
  | cons c cs ih =>
    rw [sweep, List.map_cons, List.foldr_cons, ← sweep, ih, sweepOne_map]
    rfl

variable {kind}

theorem sweepOne_sublist (c : α) (cs : List α) : List.Sublist (sweepOne kind c cs) (c :: cs) := by
  rw [sweepOne]
  split
  · split
    · exact (pruneComments_sublist true cs).cons_cons c
    · exact (pruneComments_sublist true cs).cons c
  · exact List.Sublist.refl _

theorem sweep_sublist (cs : List α) : List.Sublist (sweep kind cs) cs := by
  induction cs with
  | nil => exact List.Sublist.refl _
  | cons c cs ih => exact (sweepOne_sublist c (sweep kind cs)).trans (ih.cons_cons c)

/-- Sweeping does not change whether a list leads to a directive. -/
theorem leadsToDirective_sweep (cs : List α) :
    leadsToDirective kind (sweep kind cs) = leadsToDirective kind cs := by
  induction cs with
  | nil => rfl
  | cons c cs ih =>
    rw [sweep, List.foldr_cons, ← sweep, sweepOne, leadsToDirective_cons, ← ih]
    by_cases hc : kind c = .continuation
    · simp only [hc, beq_self_eq_true, if_true]
      cases hd : leadsToDirective kind (sweep kind cs) with
      | true =>
        rw [if_pos rfl, leadsToDirective_cons, hc]
        rfl
      | false =>
        rw [if_neg Bool.false_ne_true, leadsToDirective_pruneComments, hd]
        rfl
    · rw [if_neg (by simpa using hc), leadsToDirective_cons]

end Lists

/-! ## Shapes -/

namespace Shape

mutual

/-- What is left of a shape. -/
def swept (kind : NodeId → Kind) : Shape → Shape
  | node i cs => node i (sweep (fun c => kind c.id) (sweptAll kind cs))

/-- Each of several shapes, swept below its top. -/
def sweptAll (kind : NodeId → Kind) : List Shape → List Shape
  | [] => []
  | s :: ss => s.swept kind :: sweptAll kind ss

end

variable {kind : NodeId → Kind}

theorem sweptAll_eq (ss : List Shape) : sweptAll kind ss = ss.map (swept kind) := by
  induction ss with
  | nil => rfl
  | cons s ss ih => rw [sweptAll, ih, List.map_cons]

theorem swept_node (i : NodeId) (cs : List Shape) :
    (node i cs).swept kind = node i (sweep (fun c => kind c.id) (cs.map (swept kind))) := by
  rw [swept, sweptAll_eq]

@[simp] theorem id_swept (s : Shape) : (s.swept kind).id = s.id := by
  cases s
  rw [swept_node, id_node, id_node]

end Shape

namespace Forest

/-- `g` is `f` with the children of the nodes `js` swept. -/
structure Sweeps (f g : Forest) (js : List Nat) : Prop where
  size_eq : g.size = f.size
  kind_eq : g.kind = f.kind
  swept : ∀ j : Nat, j ∈ js → g.children j = sweep f.kind (f.children j)
  frame : ∀ j : Nat, j ∉ js → g.children j = f.children j

variable {f g h : Forest} {js ks : List Nat} {s : Shape}

theorem Sweeps.carries (hg : f.Sweeps g js) (hs : f.Carries s) (hjs : s.preorder ⊆ js) :
    g.Carries (s.swept f.kind) := by
  induction s using Shape.induct with
  | h i cs ih =>
    obtain ⟨hi, hc, hcs⟩ := carries_node.mp hs
    rw [Shape.preorder_node, List.cons_subset] at hjs
    rw [Shape.swept_node]
    refine carries_node.mpr ⟨hg.size_eq ▸ hi, ?_, fun c hm => ?_⟩
    · have hids : cs.map Shape.id = (cs.map (Shape.swept f.kind)).map Shape.id := by simp
      rw [hg.swept i hjs.1, hc, hids, sweep_map]
    · obtain ⟨d, hd, rfl⟩ := List.mem_map.mp ((sweep_sublist _).subset hm)
      refine ih d hd (hcs d hd) fun j hj => hjs.2 ?_
      exact List.mem_flatMap.mpr ⟨d, hd, hj⟩

/-! ## One visit -/

/-- What edits of texts, tails and children of single nodes leave alone. -/
structure SameKinds (f g : Forest) : Prop where
  size_eq : g.size = f.size
  kind_eq : g.kind = f.kind

theorem sameKinds_update (f : Forest) (i : Nat) {u : Node → Node} (hu : ∀ n, (u n).tag = n.tag) :
    f.SameKinds (f.update i u) := by
  refine ⟨size_update f i u, funext fun j => ?_⟩
  rcases f.node_update i u j with hn | ⟨rfl, _, hn⟩
  · rw [kind, hn, kind]
  · rw [kind, hn, Node.kind, hu]
    rfl

theorem SameKinds.trans (h₁ : f.SameKinds g) (h₂ : g.SameKinds h) : f.SameKinds h :=
  ⟨h₂.size_eq.trans h₁.size_eq, h₂.kind_eq.trans h₁.kind_eq⟩

theorem sameKinds_detach (f : Forest) (p c : Nat) : f.SameKinds (f.detach p c) := by
  have h : f.SameKinds (f.update p fun n => { n with children := n.children.erase c }) :=
    sameKinds_update f p fun _ => rfl
  rw [detach]
  split
  · exact ⟨h.size_eq, h.kind_eq⟩
  · exact ⟨rfl, rfl⟩

theorem sameKinds_foldl_detach (p : Nat) (out : List Nat) (f : Forest) :
    f.SameKinds (out.foldl (fun f c => f.detach p c) f) := by
  induction out generalizing f with
  | nil => exact ⟨rfl, rfl⟩
  | cons c out ih => exact (sameKinds_detach f p c).trans (ih _)

theorem sameKinds_appendBefore (f : Forest) (p k : Nat) (t : String) :
    f.SameKinds (f.appendBefore p k t) ∧ (f.appendBefore p k t).children = f.children := by
  unfold appendBefore
  split
  · exact ⟨sameKinds_update f p fun _ => rfl, funext fun j => children_setText⟩
  · split
    · exact ⟨sameKinds_update f _ fun _ => rfl, funext fun j => children_setTail⟩
    · exact ⟨⟨rfl, rfl⟩, rfl⟩

theorem filter_not_mem_comments (kind : Nat → Kind) (pre comments others : List Nat)
    (hn : (pre ++ (comments ++ others)).Nodup) :
    (pre ++ (comments ++ others)).filter (· ∉ comments.reverse.filter (kind · != .directive)) =
      pre ++ (comments.filter (kind · == .directive) ++ others) := by
  have hout : ∀ j : Nat, j ∈ comments.reverse.filter (kind · != .directive) ↔
      j ∈ comments ∧ kind j ≠ .directive := by
    intro j
    simp [List.mem_filter]
  have hpre := List.disjoint_of_nodup_append hn
  have hothers := List.disjoint_of_nodup_append (List.nodup_append'.mp hn).2.1
  rw [List.filter_append, List.filter_append]
  refine congrArg₂ (· ++ ·) (List.filter_eq_self.mpr fun j hj => ?_)
    (congrArg₂ (· ++ ·) (List.filter_congr fun j hj => ?_) (List.filter_eq_self.mpr fun j hj => ?_))
  · rw [decide_eq_true_eq, hout]
    exact fun hm => hpre hj (List.mem_append_left _ hm.1)
  · rw [Bool.eq_iff_iff, decide_eq_true_eq, hout, beq_iff_eq]
    constructor
    · intro hm
      by_contra hk
      exact hm ⟨hj, hk⟩
    · exact fun hk hm => hm.2 hk
  · rw [decide_eq_true_eq, hout]
    exact fun hm => hothers hm.1 hj

/-- The comments of the run after a child taken out. -/
theorem children_detach_comments {p c : Nat} {pre post : List Nat} (hp : p < f.size)
    (hc : f.children p = pre ++ c :: post) (hn : (pre ++ c :: post).Nodup)
    (hg : g = ((post.takeWhile fun d => (f.kind d).isCommentLike).reverse.filter
      (f.kind · != .directive)).foldl (fun f c => f.detach p c) f) :
    f.SameKinds g ∧ g.children p = pre ++ c :: pruneComments f.kind true post ∧
      ∀ q : Nat, q ≠ p → g.children q = f.children q := by
  have hsplit :=
    List.takeWhile_append_dropWhile (p := fun d => (f.kind d).isCommentLike) (l := post)
  have hfilter := filter_not_mem_comments f.kind (pre ++ [c])
    (post.takeWhile fun d => (f.kind d).isCommentLike)
    (post.dropWhile fun d => (f.kind d).isCommentLike) (by rw [hsplit]; simpa using hn)
  rw [hsplit] at hfilter
  have hnode : (f.node p).children = (pre ++ [c]) ++ post := by
    rw [← Forest.children, hc]
    simp
  subst hg
  refine ⟨sameKinds_foldl_detach p _ f, ?_, fun q hq =>
    congrArg Node.children (node_foldl_detach_of_ne hq _)⟩
  rw [Forest.children, node_foldl_detach_self hp (hnode ▸ (by simpa using hn))]
  dsimp only
  rw [hnode, hfilter, pruneComments, if_pos rfl]
  simp

end Forest

namespace MarkerDraft

open Forest

variable {o : MarkerOptions} {m : MarkerDraft} {p c : Nat} {pre post : List Nat}

theorem children_removeMarker (hp : p < m.forest.size) (hc : m.forest.children p = pre ++ c :: post)
    (hn : (pre ++ c :: post).Nodup) {m' : MarkerDraft}
    (hm : m' = m.removeMarker p pre.length c
      (post.takeWhile fun d => (m.forest.kind d).isCommentLike)) :
    m.forest.SameKinds m'.forest ∧
      m'.forest.children p = pre ++
        (if leadsToDirective m.forest.kind post then c :: pruneComments m.forest.kind true post
          else pruneComments m.forest.kind true post) ∧
      ∀ q : Nat, q ≠ p → m'.forest.children q = m.forest.children q := by
  obtain ⟨hkinds, hchildren, hother⟩ := children_detach_comments hp hc hn rfl
  subst hm
  rw [removeMarker]
  dsimp only
  generalize ((post.takeWhile fun d => (m.forest.kind d).isCommentLike).reverse.filter
    (m.forest.kind · != .directive)).foldl (fun f c => f.detach p c) m.forest = f
    at hkinds hchildren hother ⊢
  rw [← leadsToDirective]
  split
  · exact ⟨hkinds, hchildren, hother⟩
  · -- The marker itself goes last; its tail is handed on.
    have hcpre : c ∉ pre := fun hmem =>
      List.disjoint_of_nodup_append hn hmem List.mem_cons_self
    obtain ⟨hafter, hsame⟩ := sameKinds_appendBefore (f.detach p c) p pre.length
      (String.ofList (Text.trim (f.tail c).toList ++ [' ']))
    refine ⟨(hkinds.trans (sameKinds_detach f p c)).trans hafter, ?_, fun q hq => ?_⟩
    · rw [hsame, Forest.children, node_detach_self (hkinds.size_eq ▸ hp),
        ← Forest.children, hchildren, List.erase_append_right _ hcpre, List.erase_cons_head]
    · rw [hsame, ← hother q hq, Forest.children, Forest.children, node_detach_of_ne hq]

/-- Removing all markers, a visit sweeps the child and those after it. -/
theorem children_reviseChild (hadd : o.addBegin = false) (hall : o.removeAll = true)
    (hp : p < m.forest.size) (hc : m.forest.children p = pre ++ c :: post)
    (hn : (pre ++ c :: post).Nodup) :
    m.forest.SameKinds (m.reviseChild o p pre.length c).forest ∧
      (m.reviseChild o p pre.length c).forest.children p = pre ++ sweepOne m.forest.kind c post ∧
      ∀ q : Nat, q ≠ p →
        (m.reviseChild o p pre.length c).forest.children q = m.forest.children q := by
  have hafter : (pre ++ c :: post).drop (pre.length + 1) = post := by
    rw [List.append_cons]
    exact List.drop_left' (by simp)
  have hrem : ∀ ends, o.removes ends = true := fun ends => by
    rw [MarkerOptions.removes, hall, Bool.true_or]
  rw [reviseChild, sweepOne]
  split
  · simp only [hadd, hrem, Bool.and_false, Bool.false_eq_true, if_false, if_true, hc, hafter]
    exact children_removeMarker hp hc hn rfl
  · exact ⟨⟨rfl, rfl⟩, hc, fun _ _ => rfl⟩

/-! ## The whole run -/

/-- What removing all markers below the nodes of some height does. -/
def SweepsWithin (o : MarkerOptions) (fuel : Nat) : Prop :=
  ∀ (s : Shape) (m : MarkerDraft), s.height ≤ fuel → m.forest.Holds s →
    m.forest.Sweeps (reviseWithin o fuel s.id m).forest s.preorder

/-- The children `pre` of `p` that are still to be visited, with what is left of those after them.
-/
structure Remaining (f : Forest) (p : Nat) (pre : List Shape) (post : List Nat) : Prop where
  top_lt : p < f.size
  children_eq : f.children p = pre.map Shape.id ++ post
  nodup_children : (pre.map Shape.id ++ post).Nodup
  carries : ∀ c ∈ pre, f.Carries c
  top_not_mem : p ∉ pre.flatMap Shape.preorder
  nodup : (pre.flatMap Shape.preorder).Nodup

theorem flatMap_preorder_concat (pre : List Shape) (c : Shape) :
    (pre ++ [c]).flatMap Shape.preorder = pre.flatMap Shape.preorder ++ c.preorder := by
  rw [List.flatMap_append, List.flatMap_singleton]

/-- The visit to the last child that remains, and the descent into it: the visit changes the
children of `p`, the descent only those of the nodes of the child. -/
theorem Remaining.visit_last (hadd : o.addBegin = false) (hall : o.removeAll = true) {fuel : Nat}
    (ih : SweepsWithin o fuel) {pre : List Shape} {c : Shape}
    (h : Remaining m.forest p (pre ++ [c]) post) (hheight : c.height ≤ fuel) {m' : MarkerDraft}
    (hm : m' = reviseWithin o fuel c.id (m.reviseChild o p pre.length c.id)) :
    m.forest.SameKinds m'.forest ∧
      Remaining m'.forest p pre (sweepOne m.forest.kind c.id post) ∧
      (∀ j : Nat, j ∈ c.preorder →
        m'.forest.children j = sweep m.forest.kind (m.forest.children j)) ∧
      ∀ j : Nat, j ≠ p → j ∉ c.preorder → m'.forest.children j = m.forest.children j := by
  have hnodup : (pre.map Shape.id ++ c.id :: post).Nodup := by
    simpa using h.nodup_children
  obtain ⟨hpnot, hnd⟩ := h.top_not_mem, h.nodup
  rw [flatMap_preorder_concat] at hpnot hnd
  obtain ⟨hpre, hcn, hapart⟩ := List.nodup_append'.mp hnd
  have hpc : p ∉ c.preorder := fun hj => hpnot (List.mem_append_right _ hj)
  have hchildren : m.forest.children p = pre.map Shape.id ++ c.id :: post := by
    rw [h.children_eq]
    simp
  obtain ⟨hkinds, hvisited, hvframe⟩ := children_reviseChild hadd hall h.top_lt hchildren hnodup
  rw [List.length_map] at hkinds hvisited hvframe
  have hcheld : (m.reviseChild o p pre.length c.id).forest.Holds c := by
    refine ⟨(h.carries c (by simp)).congr_children (Nat.le_of_eq hkinds.size_eq.symm)
      fun j hj => ?_, hcn⟩
    exact hvframe j fun e => hpc (e ▸ hj)
  have hdescent := ih c _ hheight hcheld
  rw [← hm] at hdescent
  have hframe : ∀ j : Nat, j ≠ p → j ∉ c.preorder → m'.forest.children j = m.forest.children j :=
    fun j hj hjc => (hdescent.frame j hjc).trans (hvframe j hj)
  have hkinds' : m.forest.SameKinds m'.forest := hkinds.trans ⟨hdescent.size_eq, hdescent.kind_eq⟩
  refine ⟨hkinds', ?_, fun j hj => ?_, hframe⟩
  · refine ⟨hkinds'.size_eq ▸ h.top_lt, (hdescent.frame p hpc).trans hvisited,
      hnodup.sublist ((List.Sublist.refl _).append (sweepOne_sublist _ _)), fun d hd => ?_,
      fun hj => hpnot (List.mem_append_left _ hj), hpre⟩
    refine (h.carries d (by simp [hd])).congr_children (Nat.le_of_eq hkinds'.size_eq.symm)
      fun j hj => ?_
    have hjpre : j ∈ pre.flatMap Shape.preorder := List.mem_flatMap.mpr ⟨d, hd, hj⟩
    exact hframe j (fun e => hpnot (List.mem_append_left _ (e ▸ hjpre))) fun hjc => hapart hjpre hjc
  · rw [hdescent.swept j hj, hkinds.kind_eq, hvframe j fun e => hpc (e ▸ hj)]

/-- The loop over the children before `post`, from the last to the first. -/
theorem children_sweeps (hadd : o.addBegin = false) (hall : o.removeAll = true) {fuel : Nat}
    (ih : SweepsWithin o fuel) (pre : List Shape) {m : MarkerDraft} {post : List Nat}
    (h : Remaining m.forest p pre post) (hheight : ∀ c ∈ pre, c.height ≤ fuel) {m' : MarkerDraft}
    (hm : m' = (List.range pre.length).reverse.foldl (fun m index =>
      match (m.forest.children p)[index]? with
      | none => m
      | some child => reviseWithin o fuel child (m.reviseChild o p index child)) m) :
    m.forest.SameKinds m'.forest ∧
      m'.forest.children p = (pre.map Shape.id).foldr (sweepOne m.forest.kind) post ∧
      (∀ j : Nat, j ∈ pre.flatMap Shape.preorder →
        m'.forest.children j = sweep m.forest.kind (m.forest.children j)) ∧
      ∀ j : Nat, j ≠ p → j ∉ pre.flatMap Shape.preorder →
        m'.forest.children j = m.forest.children j := by
  induction pre using List.reverseRecOn generalizing m post with
  | nil =>
    subst hm
    exact ⟨⟨rfl, rfl⟩, h.children_eq, nofun, fun _ _ _ => rfl⟩
  | append_singleton pre c ih' =>
    have hindex : (m.forest.children p)[pre.length]? = some c.id := by
      rw [h.children_eq, List.map_append, List.append_assoc, List.getElem?_append_right (by simp)]
      simp
    obtain ⟨hpnot, hnd⟩ := h.top_not_mem, h.nodup
    rw [flatMap_preorder_concat] at hpnot hnd ⊢
    have hapart := List.disjoint_of_nodup_append hnd
    rw [List.length_append, List.length_singleton, List.range_succ, List.reverse_append,
      List.reverse_singleton, List.singleton_append, List.foldl_cons] at hm
    simp only [hindex] at hm
    obtain ⟨hkinds, hrest, hswept, hframe⟩ :=
      h.visit_last hadd hall ih (hheight c (by simp)) rfl
    obtain ⟨hkinds', hp', hswept', hframe'⟩ :=
      ih' hrest (fun d hd => hheight d (by simp [hd])) hm
    rw [hkinds.kind_eq] at hp' hswept'
    refine ⟨hkinds.trans hkinds', ?_, fun j hj => ?_, fun j hjp hj => ?_⟩
    · rw [hp', List.map_append, List.foldr_append]
      rfl
    · have hjp : j ≠ p := fun e => hpnot (e ▸ hj)
      rcases List.mem_append.mp hj with hj | hj
      · rw [hswept' j hj, hframe j hjp fun hjc => hapart hj hjc]
      · rw [hframe' j hjp fun hjpre => hapart hjpre hj, hswept j hj]
    · rw [List.mem_append, not_or] at hj
      rw [hframe' j hjp hj.1, hframe j hjp hj.2]

theorem sweepsWithin (hadd : o.addBegin = false) (hall : o.removeAll = true) (fuel : Nat) :
    SweepsWithin o fuel := by
  induction fuel with
  | zero =>
    intro s m hs _
    cases s
    simp [Shape.height] at hs
  | succ fuel ih =>
    rintro ⟨p, cs⟩ m hs h
    obtain ⟨hp, hc, hcs, hpn, hnd⟩ := holds_node.mp h
    have hheight : ∀ c ∈ cs, c.height ≤ fuel := fun c hm =>
      Nat.le_of_lt_succ (Nat.lt_of_lt_of_le (Shape.height_child_lt p hm) hs)
    have hremaining : Remaining m.forest p cs [] :=
      ⟨hp, by simpa using hc, by simpa using Shape.nodup_map_id hnd, hcs, hpn, hnd⟩
    have hlength : (m.forest.children p).length = cs.length := by simp [hc]
    rw [Shape.id_node, reviseWithin, hlength]
    obtain ⟨hkinds, hptop, hswept, hframe⟩ := children_sweeps hadd hall ih cs hremaining hheight rfl
    refine ⟨hkinds.size_eq, hkinds.kind_eq, fun j hj => ?_, fun j hj => ?_⟩
    · rw [Shape.preorder_node, List.mem_cons] at hj
      rcases hj with rfl | hj
      · exact hptop.trans (by rw [hc, sweep])
      · exact hswept j hj
    · rw [Shape.preorder_node, List.mem_cons, not_or] at hj
      exact hframe j hj.1 hj.2

/-- Removing all markers below a held shape leaves the swept shape, and what it denotes is the
revised element. -/
theorem sweeps_revise (hadd : o.addBegin = false) (hall : o.removeAll = true) {s : Shape}
    (h : m.forest.Holds s) :
    (revise o s.id m).forest.Holds (s.swept m.forest.kind) ∧
      (revise o s.id m).forest.elementOf (s.swept m.forest.kind) =
        (m.forest.elementOf s).revised o := by
  obtain ⟨s', hb⟩ := revise_spec (MarkerOptions.consistent_of_addBegin hadd) h
  have hsweeps := sweepsWithin hadd hall m.forest.size s m h.height_le h
  have hcarries := hsweeps.carries h.carries (List.Subset.refl _)
  -- The shape that a store carries below a node is unique.
  have hshape : s' = s.swept m.forest.kind := by
    have hid : s'.id = (s.swept m.forest.kind).id := by
      rw [hb.reshaped.id_eq, Shape.id_swept]
    have h₁ := shapeWithin_eq hb.reshaped.holds.carries
      (Nat.le_succ_of_le (Nat.le_max_left s'.height (s.swept m.forest.kind).height))
    have h₂ := shapeWithin_eq hcarries
      (Nat.le_succ_of_le (Nat.le_max_right s'.height (s.swept m.forest.kind).height))
    rw [hid] at h₁
    exact h₁.symm.trans h₂
  subst hshape
  exact ⟨hb.reshaped.holds, hb.element_eq⟩

end MarkerDraft

end FortranLayout
