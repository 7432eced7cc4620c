import FortranLayout.Proofs.Forest.Reshaped
import FortranLayout.Proofs.Markers.Revision
import Mathlib.Data.List.Induction

/-!
# The store follows the revision

Revising the markers below a node of the store leaves there what `Element.revised` says, counts
included (`MarkerDraft.revise_spec`). One visit of a child is described first, case by case; the
loop over the children of a node goes from the last to the first with those after the visited one
already revised.
-/

namespace FortranLayout

namespace MarkerDraft

open Forest Element

variable {o : MarkerOptions} {m : MarkerDraft} {p : Nat} {pre post cs ds : List Shape} {c : Shape}

/-- `m'` is `m` with the shape `s` become `s'`, which denotes `e`; so many markers came and went. -/
structure Becomes (m m' : MarkerDraft) (s s' : Shape) (e : Element) (inserted removed : Nat) :
    Prop where
  reshaped : m.forest.Reshaped m'.forest s s'
  element_eq : m'.forest.elementOf s' = e
  inserted_eq : m'.report.inserted = m.report.inserted + inserted
  removed_eq : m'.report.removed = m.report.removed + removed

/-! ## Inserting a marker -/

theorem insertMarker_becomes (h : m.forest.Holds (.node p (pre ++ post))) (tail : List Char) :
    m.Becomes (m.insertMarker p pre.length tail) (.node p (pre ++ post))
      (.node p (pre ++ .node m.forest.size [] :: post))
      { m.forest.elementOf (.node p (pre ++ post)) with
        children :=
          pre.map m.forest.elementOf ++ marker tail :: post.map m.forest.elementOf } 1 0 :=
  ⟨reshaped_insertLeaf h _ rfl, elementOf_insertLeaf h _, rfl, rfl⟩

/-- Cutting the tail of a child and inserting a marker directly after it. -/
theorem insertMarker_setTail_becomes (h : m.forest.Holds (.node p (pre ++ c :: post)))
    (layout : String) (tail : List Char) :
    m.Becomes
      (insertMarker { m with forest := m.forest.setTail c.id layout } p (pre.length + 1) tail)
      (.node p (pre ++ c :: post)) (.node p (pre ++ c :: .node m.forest.size [] :: post))
      { m.forest.elementOf (.node p (pre ++ c :: post)) with
        children := pre.map m.forest.elementOf ++
          { m.forest.elementOf c with tail := layout } :: marker tail ::
            post.map m.forest.elementOf } 1 0 := by
  have hmem : c.id ∈ (Shape.node p (pre ++ c :: post)).preorder := by
    rw [Shape.preorder_node]
    exact List.mem_cons_of_mem _ (Shape.id_mem_flatMap (by simp))
  have hr := Reshaped.setTail h hmem (t := layout)
  have he := elementOf_setTail_child h (t := layout)
  have h' : (m.forest.setTail c.id layout).Holds (.node p ((pre ++ [c]) ++ post)) := by
    simpa using hr.holds
  have hi := insertMarker_becomes (m := { m with forest := m.forest.setTail c.id layout }) h' tail
  simp only [List.length_append, List.length_singleton, List.append_assoc, List.cons_append,
    List.nil_append, size_setTail, List.map_append, List.map_cons, List.map_nil] at hi
  refine ⟨hr.trans hi.reshaped, ?_, hi.inserted_eq, hi.removed_eq⟩
  obtain ⟨hpre, hpost⟩ := map_elementOf_setTail h (t := layout)
  rw [hi.element_eq, he, hpre, hpost,
    elementOf_setTail_top (h.child (List.mem_append_right pre List.mem_cons_self))]

/-! ## Visiting a child -/

/-- The comments and directives at the beginning of a list of shapes, and the rest. -/
theorem takeWhile_map_id (f : Forest) (ss : List Shape) :
    (ss.map Shape.id).takeWhile (fun c => (f.kind c).isCommentLike) =
        (ss.takeWhile fun s => (f.elementOf s).isCommentLike).map Shape.id := by
  simp only [List.takeWhile_map, isCommentLike, kind_elementOf]
  rfl

theorem takeWhile_map_elementOf (f : Forest) (ss : List Shape) :
    (ss.map f.elementOf).takeWhile isCommentLike =
      (ss.takeWhile fun s => (f.elementOf s).isCommentLike).map f.elementOf := by
  rw [List.takeWhile_map]
  rfl

theorem dropWhile_map_elementOf (f : Forest) (ss : List Shape) :
    (ss.map f.elementOf).dropWhile isCommentLike =
      (ss.dropWhile fun s => (f.elementOf s).isCommentLike).map f.elementOf := by
  rw [List.dropWhile_map]
  rfl

/-- The visit leaves the child in its place. -/
def Keeps (m m' : MarkerDraft) (p : Nat) (pre : List Shape) (c : Shape) (post : List Shape)
    (out : MarkerOutcome) : Prop :=
  ∃ tail post', out.lead = [] ∧ out.tail? = some tail ∧
    m.Becomes m' (.node p (pre ++ c :: post)) (.node p (pre ++ c :: post'))
      { m.forest.elementOf (.node p (pre ++ c :: post)) with
        children := pre.map m.forest.elementOf ++
          { m.forest.elementOf c with tail := String.ofList tail } :: out.after }
      out.inserted out.removed

/-- The visit takes the child out. -/
def Drops (m m' : MarkerDraft) (p : Nat) (pre : List Shape) (c : Shape) (post : List Shape)
    (out : MarkerOutcome) : Prop :=
  ∃ post', out.tail? = none ∧ List.Sublist post' post ∧
    (∀ j : Nat, j ∈ c.preorder → m'.forest.node j = m.forest.node j) ∧
    m.Becomes m' (.node p (pre ++ c :: post)) (.node p (pre ++ post'))
      { m.forest.elementOf (.node p (pre ++ c :: post)) with
        text := (placeLead (m.forest.text p) (pre.map m.forest.elementOf) out.lead).1
        children :=
          (placeLead (m.forest.text p) (pre.map m.forest.elementOf) out.lead).2 ++ out.after }
      out.inserted out.removed

theorem elementOf_with_tail (f : Forest) (c : Shape) :
    { f.elementOf c with tail := String.ofList (f.tail c.id).toList } = f.elementOf c := by
  cases c
  simp

theorem keeps_stays (h : m.forest.Holds (.node p (pre ++ c :: post))) :
    m.Keeps m p pre c post
      (.stays (m.forest.tail c.id).toList (post.map m.forest.elementOf)) := by
  refine ⟨_, post, rfl, rfl, Reshaped.refl h, ?_, rfl, rfl⟩
  simp only [elementOf_with_tail]
  simp [MarkerOutcome.stays]

/-- A marker put after the comments that follow the child. -/
theorem keeps_beginAfter (h : m.forest.Holds (.node p (pre ++ c :: (cs ++ ds)))) :
    m.Keeps
      (match (cs.map Shape.id).getLast? with
        | none => m.insertMarker p (pre.length + 1) [' ']
        | some last =>
          insertMarker
            { m with
              forest :=
                m.forest.setTail last (String.ofList (layoutBefore (m.forest.tail last).toList)) }
            p (pre.length + 1 + (cs.map Shape.id).length)
            (' ' :: codeFrom (m.forest.tail last).toList)) p pre c (cs ++ ds)
      { tail? := some (m.forest.tail c.id).toList
        after := MarkerOutcome.beginAfter (cs.map m.forest.elementOf) ++ ds.map m.forest.elementOf
        inserted := 1 } := by
  rcases List.eq_nil_or_concat cs with rfl | ⟨cs, b, rfl⟩
  · have h' : m.forest.Holds (.node p ((pre ++ [c]) ++ ds)) := by simpa using h
    have hi := insertMarker_becomes h' [' ']
    simp only [List.length_append, List.length_singleton, List.append_assoc, List.cons_append,
      List.nil_append, List.map_append, List.map_cons, List.map_nil] at hi
    refine ⟨_, _, rfl, rfl, hi.reshaped, ?_, hi.inserted_eq, hi.removed_eq⟩
    refine hi.element_eq.trans ?_
    simp only [elementOf_with_tail]
    rfl
  · have h' : m.forest.Holds (.node p ((pre ++ c :: cs) ++ b :: ds)) := by simpa using h
    have hi := insertMarker_setTail_becomes h'
      (String.ofList (layoutBefore (m.forest.tail b.id).toList))
      (' ' :: codeFrom (m.forest.tail b.id).toList)
    have hlength : pre.length + 1 + ((cs.concat b).map Shape.id).length =
        (pre ++ c :: cs).length + 1 := by
      simp
      omega
    have hlast : ((cs.concat b).map Shape.id).getLast? = some b.id := by simp
    rw [hlength]
    simp only [hlast]
    simp only [List.append_assoc, List.cons_append, List.map_append, List.map_cons] at hi
    simp only [List.concat_eq_append, List.append_assoc, List.cons_append, List.nil_append]
    refine ⟨_, _, rfl, rfl, hi.reshaped, ?_, hi.inserted_eq, hi.removed_eq⟩
    refine hi.element_eq.trans ?_
    simp only [elementOf_with_tail]
    simp [MarkerOutcome.beginAfter, tail_elementOf]

theorem keeps_addBegin (h : m.forest.Holds (.node p (pre ++ c :: post)))
    (hcs : cs = post.takeWhile fun s => (m.forest.elementOf s).isCommentLike)
    (hds : ds = post.dropWhile fun s => (m.forest.elementOf s).isCommentLike) :
    m.Keeps (m.addBegin p pre.length c.id (cs.map Shape.id) (ds.map Shape.id).head?) p pre c post
      (.addBegin (m.forest.tail c.id).toList (post.map m.forest.elementOf)) := by
  have hpost : post = cs ++ ds := by rw [hcs, hds, List.takeWhile_append_dropWhile]
  have hnext : (ds.map Shape.id).head?.any (m.forest.kind · != .continuation) =
      (ds.map m.forest.elementOf).head?.any (·.kind != .continuation) := by
    cases ds <;> simp [kind_elementOf]
  rw [MarkerOutcome.addBegin, takeWhile_map_elementOf, dropWhile_map_elementOf, ← hcs, ← hds,
    ← hnext]
  unfold MarkerDraft.addBegin
  by_cases hcode : (!(codeFrom (m.forest.tail c.id).toList).isEmpty) = true
  · rw [if_pos hcode]
    refine (if_pos hcode).symm ▸ ?_
    exact ⟨_, _, rfl, rfl, insertMarker_setTail_becomes h _ _⟩
  · rw [if_neg hcode]
    refine (if_neg hcode).symm ▸ ?_
    by_cases hn : (ds.map Shape.id).head?.any (m.forest.kind · != .continuation) = true
    · rw [if_pos hn, if_pos hn]
      subst hpost
      exact keeps_beginAfter h
    · rw [if_neg hn, if_neg hn]
      exact keeps_stays h

/-- Taking some of the shapes in the middle of a list out by their tops. -/
theorem filter_not_mem_out {xs cs ds : List Shape} {q : Shape → Bool} {out : List Nat}
    (hn : ((xs ++ (cs ++ ds)).map Shape.id).Nodup)
    (hout : ∀ j : Nat, j ∈ out ↔ ∃ d ∈ cs, q d = true ∧ d.id = j) :
    (xs ++ (cs ++ ds)).filter (·.id ∉ out) = xs ++ (cs.filter (!q ·) ++ ds) := by
  have hinj := List.inj_on_of_nodup_map hn
  rw [List.map_append, List.map_append] at hn
  have hxs := List.disjoint_of_nodup_append hn
  have hds := List.disjoint_of_nodup_append (List.nodup_append'.mp hn).2.1
  rw [List.filter_append, List.filter_append]
  refine congrArg₂ (· ++ ·) (List.filter_eq_self.mpr ?_)
    (congrArg₂ (· ++ ·) (List.filter_congr ?_) (List.filter_eq_self.mpr ?_))
  · intro d hd
    rw [decide_eq_true_eq, hout]
    rintro ⟨b, hb, _, he⟩
    refine hxs (List.mem_map_of_mem hd) (he ▸ List.mem_append_left _ (List.mem_map_of_mem hb))
  · intro d hd
    rw [Bool.eq_iff_iff, decide_eq_true_eq, hout, Bool.not_eq_true', Bool.eq_false_iff]
    refine not_congr ⟨?_, fun hq => ⟨d, hd, hq, rfl⟩⟩
    rintro ⟨b, hb, hq, he⟩
    have hbd : b = d := hinj (by simp [hb]) (by simp [hd]) he
    exact hbd ▸ hq
  · intro d hd
    rw [decide_eq_true_eq, hout]
    rintro ⟨b, hb, _, he⟩
    exact hds (he ▸ List.mem_map_of_mem hb) (List.mem_map_of_mem hd)

theorem elementOf_appendBefore {f : Forest} (hf : f.Holds (.node p (pre ++ post))) (t : List Char) :
    (f.appendBefore p pre.length (String.ofList t)).elementOf (.node p (pre ++ post)) =
      { f.elementOf (.node p (pre ++ post)) with
        text := (placeLead (f.text p) (pre.map f.elementOf) t).1
        children := (placeLead (f.text p) (pre.map f.elementOf) t).2 ++ post.map f.elementOf } := by
  rcases List.eq_nil_or_concat pre with rfl | ⟨pre, b, rfl⟩
  · rw [List.nil_append] at hf ⊢
    rw [List.length_nil, elementOf_appendBefore_nil hf]
    simp
  · simp only [List.concat_eq_append, List.append_assoc, List.cons_append, List.nil_append] at hf ⊢
    rw [List.length_append, List.length_singleton, elementOf_appendBefore_concat hf,
      List.map_append, List.map_singleton, placeLead_concat]
    simp [appendTail]

/-- The comments that go with a marker, by their tops. -/
theorem mem_dropped {f : Forest} {j : Nat} :
    j ∈ (cs.map Shape.id).reverse.filter (f.kind · != .directive) ↔
      ∃ d ∈ cs, (f.kind d.id != .directive) = true ∧ d.id = j := by
  rw [List.mem_filter, List.mem_reverse, List.mem_map]
  constructor
  · rintro ⟨⟨d, hd, rfl⟩, hk⟩
    exact ⟨d, hd, hk, rfl⟩
  · rintro ⟨d, hd, hk, rfl⟩
    exact ⟨⟨d, hd, rfl⟩, hk⟩

theorem keeps_removeMarker (h : m.forest.Holds (.node p (pre ++ c :: (cs ++ ds))))
    (hdir : (cs.map m.forest.elementOf).any (·.kind == .directive) = true) :
    m.Keeps (m.removeMarker p pre.length c.id (cs.map Shape.id)) p pre c (cs ++ ds)
      (.stays (m.forest.tail c.id).toList
        ((cs.map m.forest.elementOf).filter (·.kind == .directive) ++
          ds.map m.forest.elementOf)) := by
  have hdir' : (cs.map Shape.id).any (m.forest.kind · == .directive) = true := by
    simpa [kind_elementOf] using hdir
  rw [MarkerDraft.removeMarker]
  simp only [hdir', if_true]
  have h' : m.forest.Holds (.node p ((pre ++ [c]) ++ (cs ++ ds))) := by simpa using h
  have hfilter := filter_not_mem_out (Shape.nodup_map_id (holds_node.mp h').2.2.2.2)
    fun _ => mem_dropped (f := m.forest)
  have hr :=
    reshaped_detachAll h' ((cs.map Shape.id).reverse.filter (m.forest.kind · != .directive))
  have he :=
    elementOf_detachAll h' ((cs.map Shape.id).reverse.filter (m.forest.kind · != .directive))
  rw [hfilter] at hr he
  simp only [List.append_assoc, List.cons_append, List.nil_append] at hr he
  refine ⟨_, _, rfl, rfl, hr, he.trans ?_, rfl, rfl⟩
  simp only [elementOf_with_tail]
  simp [MarkerOutcome.stays, List.filter_map, Function.comp_def, kind_elementOf, bne]

/-- The marker and the comments that go with it, by their tops, when no directive is among those. -/
theorem mem_dropped_marker {f : Forest} {j : Nat}
    (hdir : ¬ (cs.map Shape.id).any (f.kind · == .directive) = true) :
    j ∈ (cs.map Shape.id).reverse.filter (f.kind · != .directive) ++ [c.id] ↔
      ∃ d ∈ c :: cs, true = true ∧ d.id = j := by
  rw [List.mem_append, mem_dropped, List.mem_singleton]
  constructor
  · rintro (⟨d, hd, _, he⟩ | he)
    · exact ⟨d, List.mem_cons_of_mem _ hd, rfl, he⟩
    · exact ⟨c, List.mem_cons_self, rfl, he.symm⟩
  · rintro ⟨d, hd, _, he⟩
    rcases List.mem_cons.mp hd with rfl | hd
    · exact Or.inr he.symm
    · refine Or.inl ⟨d, hd, ?_, he⟩
      rw [bne_iff_ne]
      intro hk
      exact hdir (List.any_eq_true.mpr ⟨d.id, List.mem_map_of_mem hd, beq_iff_eq.mpr hk⟩)

/-- A marker and all the comments after it taken out: the comments first, the marker last. -/
theorem reshaped_detachMarker {f g : Forest} (h : f.Holds (.node p (pre ++ c :: (cs ++ ds))))
    (hdir : ¬ (cs.map Shape.id).any (f.kind · == .directive) = true)
    (hg : g = ((cs.map Shape.id).reverse.filter (f.kind · != .directive) ++ [c.id]).foldl
      (fun f c => f.detach p c) f) :
    f.Reshaped g (.node p (pre ++ c :: (cs ++ ds))) (.node p (pre ++ ds)) ∧
      g.elementOf (.node p (pre ++ ds)) =
        { f.elementOf (.node p (pre ++ c :: (cs ++ ds))) with
          children := (pre ++ ds).map f.elementOf } ∧
      ∀ j : Nat, j ≠ p → g.node j = f.node j := by
  have h' : f.Holds (.node p (pre ++ ((c :: cs) ++ ds))) := h
  have hfilter := filter_not_mem_out (Shape.nodup_map_id (holds_node.mp h').2.2.2.2)
    fun _ => mem_dropped_marker hdir
  have hnone : (c :: cs).filter (fun _ => !true) = [] := by simp
  rw [hnone, List.nil_append] at hfilter
  exact ⟨hg ▸ hfilter ▸ reshaped_detachAll h' _, hg ▸ hfilter ▸ elementOf_detachAll h' _,
    fun j hj => hg ▸ node_foldl_detach_of_ne hj _⟩

/-- The tail of the marker is read from its own node, which the detaching leaves alone. -/
theorem removeMarker_of_not_any (hcp : c.id ≠ p)
    (hdir : ¬ (cs.map Shape.id).any (m.forest.kind · == .directive) = true) {g : Forest}
    (hg : g = ((cs.map Shape.id).reverse.filter (m.forest.kind · != .directive) ++ [c.id]).foldl
      (fun f c => f.detach p c) m.forest) :
    m.removeMarker p pre.length c.id (cs.map Shape.id) =
      { forest := g.appendBefore p pre.length
          (String.ofList (Text.trim (m.forest.tail c.id).toList ++ [' ']))
        report := { m.report with removed := m.report.removed + 1 } } := by
  have htail : ∀ out : List Nat, (out.foldl (fun f c => f.detach p c) m.forest).tail c.id =
      m.forest.tail c.id := fun out => congrArg Node.tail (node_foldl_detach_of_ne hcp out)
  rw [MarkerDraft.removeMarker, if_neg hdir, hg, List.foldl_append, htail]
  rfl

theorem drops_removeMarker (h : m.forest.Holds (.node p (pre ++ c :: (cs ++ ds))))
    (hdir : ¬ (cs.map m.forest.elementOf).any (·.kind == .directive) = true) :
    m.Drops (m.removeMarker p pre.length c.id (cs.map Shape.id)) p pre c (cs ++ ds)
      { lead := Text.trim (m.forest.tail c.id).toList ++ [' ']
        tail? := none
        after := ds.map m.forest.elementOf
        removed := 1 } := by
  have hdir' : ¬ (cs.map Shape.id).any (m.forest.kind · == .directive) = true := by
    simpa [kind_elementOf] using hdir
  have hcp : c.id ≠ p := fun e => h.top_not_mem (c := c) (by simp) (e ▸ c.id_mem_preorder)
  obtain ⟨g, hg⟩ : ∃ g, g = ((cs.map Shape.id).reverse.filter (m.forest.kind · != .directive) ++
      [c.id]).foldl (fun f c => f.detach p c) m.forest := ⟨_, rfl⟩
  obtain ⟨hr, he, hnode⟩ := reshaped_detachMarker h hdir' hg
  have htext : g.text p = m.forest.text p := by
    simpa using congrArg Element.text he
  have hmaps : pre.map g.elementOf = pre.map m.forest.elementOf ∧
      ds.map g.elementOf = ds.map m.forest.elementOf := by
    have := congrArg Element.children he
    simp only [elementOf_node, List.map_append] at this
    exact List.append_inj this (by simp)
  have hb := reshaped_appendBefore hr.holds
    (t := String.ofList (Text.trim (m.forest.tail c.id).toList ++ [' ']))
  -- The marker's own nodes are now apart from the tree.
  have hapart := h.apart_without (List.sublist_append_right cs ds)
  rw [removeMarker_of_not_any hcp hdir' hg]
  refine ⟨ds, rfl, List.sublist_append_right _ _, ?_, hr.trans hb, ?_, rfl, rfl⟩
  · intro j hj
    have hjp : j ≠ p := fun e => hapart hj (by simp [e])
    have hjs : j < m.forest.size := (h.child (by simp : c ∈ _)).carries.mem_lt j hj
    rw [hb.frame j (Nat.lt_of_lt_of_le hjs hr.size_le) fun hm => hapart hj hm, hnode j hjp]
  · refine (elementOf_appendBefore hr.holds _).trans ?_
    rw [he, hmaps.1, hmaps.2, htext]

/-! ## The visit as a whole -/

/-- What becomes of a child. -/
def childOutcome (o : MarkerOptions) (m : MarkerDraft) (c : Shape) (post : List Shape) :
    MarkerOutcome :=
  o.outcomeOf (m.forest.elementOf c).kind (m.forest.tail c.id).toList (post.map m.forest.elementOf)

theorem reviseChild_spec (ho : o.Consistent) (h : m.forest.Holds (.node p (pre ++ c :: post))) :
    m.Keeps (m.reviseChild o p pre.length c.id) p pre c post (childOutcome o m c post) ∨
      m.Drops (m.reviseChild o p pre.length c.id) p pre c post (childOutcome o m c post) := by
  obtain ⟨_, hc, _⟩ := holds_node.mp h
  rw [reviseChild, childOutcome, MarkerOptions.outcomeOf, kind_elementOf]
  by_cases hk : (m.forest.kind c.id == .continuation) = true
  swap
  · rw [if_neg hk, if_neg hk]
    exact Or.inl (keeps_stays h)
  obtain ⟨cs, hcs⟩ : ∃ cs, cs = post.takeWhile fun s => (m.forest.elementOf s).isCommentLike :=
    ⟨_, rfl⟩
  obtain ⟨ds, hds⟩ : ∃ ds, ds = post.dropWhile fun s => (m.forest.elementOf s).isCommentLike :=
    ⟨_, rfl⟩
  have hpost : post = cs ++ ds := by rw [hcs, hds, List.takeWhile_append_dropWhile]
  have hafter : (m.forest.children p).drop (pre.length + 1) = post.map Shape.id := by
    have hsplit : pre ++ c :: post = (pre ++ [c]) ++ post := by simp
    rw [hc, hsplit, List.map_append]
    exact List.drop_left' (by simp)
  have hnext : (post.map Shape.id)[(cs.map Shape.id).length]? = (ds.map Shape.id).head? := by
    rw [hpost, List.map_append, List.getElem?_append_right (Nat.le_refl _), Nat.sub_self,
      List.head?_eq_getElem?]
  rw [if_pos hk, if_pos hk, hafter]
  dsimp only
  rw [takeWhile_map_id, ← hcs, hnext, MarkerOptions.outcome, MarkerOptions.endsLine,
    takeWhile_map_elementOf, ← hcs, List.isEmpty_map, List.isEmpty_map]
  generalize (Text.hasNewline (m.forest.tail c.id).toList || !cs.isEmpty) = ends
  by_cases hadd : (ends && o.addBegin) = true
  · have hrem : o.removes ends = false := ho (by simp at hadd; exact hadd.2) ends
    rw [if_pos hadd, if_pos hadd, hrem]
    exact Or.inl (keeps_addBegin h hcs hds)
  · rw [if_neg hadd, if_neg hadd]
    by_cases hrem : o.removes ends = true
    · rw [if_pos hrem, if_pos hrem, MarkerOutcome.remove, takeWhile_map_elementOf,
        dropWhile_map_elementOf, ← hcs, ← hds]
      subst hpost
      by_cases hdir : (cs.map m.forest.elementOf).any (·.kind == .directive) = true
      · rw [if_pos hdir]
        exact Or.inl (keeps_removeMarker h hdir)
      · rw [if_neg hdir]
        exact Or.inr (drops_removeMarker h hdir)
    · rw [if_neg hrem, if_neg hrem]
      exact Or.inl (keeps_stays h)

/-- The revision of a child, from its outcome. -/
theorem cons_eq_childOutcome (o : MarkerOptions) (m : MarkerDraft) (c : Shape) (post : List Shape) :
    Revision.cons o (m.forest.elementOf c) ((m.forest.elementOf c).revise o)
        { elements := post.map m.forest.elementOf } =
      { lead := (childOutcome o m c post).lead
        elements :=
          ((childOutcome o m c post).tail?.map fun tail =>
            { (m.forest.elementOf c).revised o with tail := String.ofList tail }).toList ++
              (childOutcome o m c post).after
        inserted :=
          (childOutcome o m c post).inserted + ((m.forest.elementOf c).revise o).inserted
        removed :=
          (childOutcome o m c post).removed + ((m.forest.elementOf c).revise o).removed } := by
  simp [Revision.cons, childOutcome, tail_elementOf, revised]

/-- What revising below the nodes of some height does. -/
def RevisesWithin (o : MarkerOptions) (fuel : Nat) : Prop :=
  ∀ (s : Shape) (m : MarkerDraft), s.height ≤ fuel → m.forest.Holds s →
    ∃ s', m.Becomes (reviseWithin o fuel s.id m) s s' ((m.forest.elementOf s).revised o)
      ((m.forest.elementOf s).revise o).inserted ((m.forest.elementOf s).revise o).removed

/-- A child visited and then revised below. -/
theorem descend_spec (ho : o.Consistent) {fuel : Nat} (ih : RevisesWithin o fuel)
    (h : m.forest.Holds (.node p (pre ++ c :: post))) (hc : c.height ≤ fuel) {r : Revision}
    (hr : r = Revision.cons o (m.forest.elementOf c) ((m.forest.elementOf c).revise o)
      { elements := post.map m.forest.elementOf }) :
    ∃ post', m.Becomes (reviseWithin o fuel c.id (m.reviseChild o p pre.length c.id))
        (.node p (pre ++ c :: post)) (.node p (pre ++ post'))
        { m.forest.elementOf (.node p (pre ++ c :: post)) with
          text := (placeLead (m.forest.text p) (pre.map m.forest.elementOf) r.lead).1
          children :=
            (placeLead (m.forest.text p) (pre.map m.forest.elementOf) r.lead).2 ++ r.elements }
        r.inserted r.removed := by
  rw [cons_eq_childOutcome] at hr
  rcases reviseChild_spec ho h
    with ⟨tail, post', hlead, htail, hb⟩ | ⟨post', htail, hsub, hkeep, hb⟩
  · generalize m.reviseChild o p pre.length c.id = m₁ at hb ⊢
    have hchildren := congrArg Element.children hb.element_eq
    simp only [elementOf_node, List.map_append, List.map_cons] at hchildren
    obtain ⟨hpre, hcons⟩ := List.append_inj hchildren (by simp)
    obtain ⟨hec, hpost⟩ := List.cons.inj hcons
    obtain ⟨c', hd⟩ := ih c m₁ hc (hb.reshaped.holds.child (by simp))
    rw [hec, revised, revise_with_tail] at hd
    refine ⟨c' :: post', hb.reshaped.trans (hd.reshaped.of_child hb.reshaped.holds), ?_, ?_, ?_⟩
    · rw [hd.reshaped.elementOf_of_child hb.reshaped.holds, hd.element_eq, hpre,
        hpost, hb.element_eq, hr]
      simp [hlead, htail, placeLead_nil_lead, revised]
    · rw [hd.inserted_eq, hb.inserted_eq, hr, Nat.add_assoc]
    · rw [hd.removed_eq, hb.removed_eq, hr, Nat.add_assoc]
  · generalize m.reviseChild o p pre.length c.id = m₁ at hb hkeep ⊢
    have hcm := h.child (c := c) (by simp)
    have hcm₁ : m₁.forest.Holds c := ⟨hcm.carries.congr hb.reshaped.size_le hkeep, hcm.nodup⟩
    obtain ⟨c', hd⟩ := ih c m₁ hc hcm₁
    rw [elementOf_congr hkeep] at hd
    obtain ⟨hreshaped, helement⟩ := hb.reshaped.trans_apart hd.reshaped
      (Shape.preorder_subset p (by simp)) (h.apart_without hsub)
    refine ⟨post', hreshaped, ?_, ?_, ?_⟩
    · rw [helement, hb.element_eq, hr]
      simp [htail]
    · rw [hd.inserted_eq, hb.inserted_eq, hr, Nat.add_assoc]
    · rw [hd.removed_eq, hb.removed_eq, hr, Nat.add_assoc]

/-! ## All children, and all levels -/

/-- The loop over the children before `post`, from the last to the first. -/
theorem children_spec (ho : o.Consistent) {fuel : Nat} (ih : RevisesWithin o fuel)
    (pre : List Shape)
    {m : MarkerDraft} {post : List Shape} (h : m.forest.Holds (.node p (pre ++ post)))
    (hheight : ∀ c ∈ pre, c.height ≤ fuel) {r : Revision}
    (hr :
      r = reviseAll o { elements := post.map m.forest.elementOf } (pre.map m.forest.elementOf)) :
    ∃ cs, m.Becomes
      ((List.range pre.length).reverse.foldl (fun m index =>
        match (m.forest.children p)[index]? with
        | none => m
        | some child => reviseWithin o fuel child (m.reviseChild o p index child)) m)
      (.node p (pre ++ post)) (.node p cs)
      { m.forest.elementOf (.node p (pre ++ post)) with
        text := m.forest.text p ++ String.ofList r.lead
        children := r.elements }
      r.inserted r.removed := by
  -- The induction takes the last of the children that are left; `post` grows by what became of it.
  induction pre using List.reverseRecOn generalizing m post r with
  | nil =>
    subst hr
    refine ⟨post, Reshaped.refl h, ?_, rfl, rfl⟩
    simp [reviseAll]
  | append_singleton pre c ih' =>
    have h' : m.forest.Holds (.node p (pre ++ c :: post)) := by simpa using h
    obtain ⟨_, hchildren, _⟩ := holds_node.mp h'
    have hindex : (m.forest.children p)[pre.length]? = some c.id := by simp [hchildren]
    obtain ⟨post₁, hb⟩ := descend_spec ho ih h' (hheight c (by simp)) rfl
    have hlength : (pre ++ [c]).length = pre.length + 1 := by simp
    rw [hlength, List.range_succ, List.reverse_append, List.reverse_singleton,
      List.singleton_append, List.foldl_cons]
    simp only [hindex]
    generalize reviseWithin o fuel c.id (m.reviseChild o p pre.length c.id) = m₁ at hb ⊢
    generalize hr₁ : Revision.cons o (m.forest.elementOf c) ((m.forest.elementOf c).revise o)
      { elements := post.map m.forest.elementOf } = r₁ at hb
    have htext := congrArg Element.text hb.element_eq
    have hmaps := congrArg Element.children hb.element_eq
    simp only [elementOf_node, List.map_append] at htext hmaps
    obtain ⟨hpre, hpost⟩ := List.append_inj hmaps (by simp [length_placeLead])
    obtain ⟨cs, hloop⟩ := ih' hb.reshaped.holds (fun d hd => hheight d (by simp [hd])) rfl
    rw [hpre, hpost] at hloop
    have hwhole : r = reviseAll o r₁ (pre.map m.forest.elementOf) := by
      rw [hr, List.map_append, reviseAll_append, List.map_singleton, ← hr₁]
      simp [reviseAll]
    obtain ⟨hlead, helements, hinserted, hremoved⟩ :=
      reviseAll_of_placed o r₁ (m.forest.text p) (pre.map m.forest.elementOf) rfl
    rw [← hwhole] at hlead helements hinserted hremoved
    refine ⟨cs, ?_, ?_, ?_, ?_⟩
    · simpa using hb.reshaped.trans hloop.reshaped
    · rw [hloop.element_eq, htext, ← hlead, helements, hb.element_eq]
      simp
    · rw [hloop.inserted_eq, hb.inserted_eq, hinserted]
      omega
    · rw [hloop.removed_eq, hb.removed_eq, hremoved]
      omega

theorem revisesWithin (ho : o.Consistent) (fuel : Nat) : RevisesWithin o fuel := by
  induction fuel with
  | zero =>
    intro s m hs _
    cases s
    simp [Shape.height] at hs
  | succ fuel ih =>
    rintro ⟨p, cs⟩ m hs h
    obtain ⟨_, hc, _⟩ := holds_node.mp h
    have hlength : (m.forest.children p).length = cs.length := by simp [hc]
    have hheight : ∀ c ∈ cs, c.height ≤ fuel := fun c hm =>
      Nat.le_of_lt_succ (Nat.lt_of_lt_of_le (Shape.height_child_lt p hm) hs)
    have h' : m.forest.Holds (.node p (cs ++ [])) := by simpa using h
    obtain ⟨cs', hb⟩ := children_spec ho ih cs h' hheight rfl
    rw [List.append_nil] at hb
    rw [Shape.id_node, reviseWithin, hlength]
    refine ⟨_, hb.reshaped, hb.element_eq.trans ?_, hb.inserted_eq.trans ?_, hb.removed_eq.trans ?_⟩
    · simp [revised, revise_mk]
    · simp [revise_mk]
    · simp [revise_mk]

/-- Revising below a node that the store holds a shape for. -/
theorem revise_spec (ho : o.Consistent) {s : Shape} (h : m.forest.Holds s) :
    ∃ s', m.Becomes (revise o s.id m) s s' ((m.forest.elementOf s).revised o)
      ((m.forest.elementOf s).revise o).inserted ((m.forest.elementOf s).revise o).removed :=
  revisesWithin ho _ s m h.height_le h

end MarkerDraft

end FortranLayout
