import FortranLayout.Proofs.Events.Sketch
import FortranLayout.Proofs.Forest.Reshaped

/-!
# The store draws the sketch

`Builder.step` works on the store: it allocates nodes, enters them below the open one, and appends
to the text or tail of a single node. The store holds a shape whose nodes are numbered in document
order, and the open nodes are those on the way down its last children (`Builder.Draws`). Every event
keeps this, and changes the tree as it changes the sketch (`Builder.Draws.step`). So text is fed in
order, nodes are created in document order, and the events of an element give it back
(`Forest.ofEvents_lossless`).
-/

namespace FortranLayout

open Forest Element

variable {f g : Forest} {s b b' : Shape} {path : List NodeId}

/-! ## Down the last children -/

/-- The way from a shape down its last children: the nodes on it, the lowest first, and the shape at
its end. -/
inductive Shape.Spine (s : Shape) : List NodeId → Shape → Prop where
  | top : Spine s [] s
  | last {path : List NodeId} {i : NodeId} {xs : List Shape} {c : Shape}
    (h : Spine s path (.node i (xs ++ [c]))) : Spine s (c.id :: path) c

namespace Shape.Spine

theorem holds (h : s.Spine path b) (hf : f.Holds s) : f.Holds b := by
  induction h with
  | top => exact hf
  | last _ ih => exact ih.child (by simp)

theorem id_eq (h : s.Spine path b) : b.id = path.headD s.id := by
  cases h <;> rfl

theorem above (h : s.Spine path b) : ∃ c, s.Spine path.tail c := by
  cases h with
  | top => exact ⟨s, .top⟩
  | last h => exact ⟨_, h⟩

/-- An edit at the end of the way, seen from its beginning. -/
theorem reshape (h : s.Spine path b) (hf : f.Holds s) (hr : f.Reshaped g b b')
    {k : Element → Element} (hk : g.elementOf b' = k (f.elementOf b)) {new : List NodeId}
    (hnew : b'.preorder = b.preorder ++ new) :
    ∃ s', f.Reshaped g s s' ∧ s'.Spine path b' ∧
      g.elementOf s' = (f.elementOf s).onSpine path.length k ∧ s'.preorder = s.preorder ++ new := by
  induction h generalizing b' k with
  | top => exact ⟨b', hr, .top, hk, hnew⟩
  | @last path i xs c h ih =>
    have hparent : f.Holds (.node i (xs ++ [c])) := h.holds hf
    have hk' :
        g.elementOf (.node i (xs ++ [b'])) = onLastChild k (f.elementOf (.node i (xs ++ [c]))) := by
      rw [hr.elementOf_of_child hparent, hk, elementOf_node, List.map_append, List.map_singleton,
        onLastChild_concat]
      rfl
    have hnew' : (Shape.node i (xs ++ [b'])).preorder =
        (Shape.node i (xs ++ [c])).preorder ++ new := by
      simp [hnew]
    obtain ⟨s', hr', hspine, helement, hpreorder⟩ := ih (hr.of_child hparent) hk' hnew'
    exact ⟨s', hr', hr.id_eq ▸ .last hspine, helement, hpreorder⟩

end Shape.Spine

/-! ## Trees under construction -/

namespace Builder

/-- The store holds a shape that is numbered in document order. The open nodes lead down its last
children. -/
structure Draws (b : Builder) (s bottom : Shape) : Prop where
  holds : b.forest.Holds s
  id_eq : s.id = root
  preorder_eq : s.preorder = List.range b.forest.size
  spine : s.Spine b.opened bottom

/-- The tree so far and the depth of the innermost open node. -/
def sketch (b : Builder) : Sketch := ⟨b.forest.toElement, b.opened.length⟩

namespace Draws

variable {b : Builder} {s bottom : Shape}

theorem current_eq (h : b.Draws s bottom) : b.current = bottom.id := by
  rw [h.spine.id_eq, h.id_eq, current]

theorem sketch_eq (h : b.Draws s bottom) : b.sketch = ⟨b.forest.elementOf s, b.opened.length⟩ := by
  rw [sketch, h.holds.toElement_eq h.id_eq]

theorem start (h : b.Draws s bottom) (tag : String) :
    (∃ s' c, (b.start tag).Draws s' c) ∧ (b.start tag).sketch = b.sketch.step (.start tag) := by
  obtain ⟨i, cs⟩ := bottom
  have hbottom := h.spine.holds h.holds
  obtain ⟨hi, hchildren, _⟩ := holds_node.mp hbottom
  have hconcat : b.forest.Holds (.node i (cs ++ [])) := (List.append_nil cs).symm ▸ hbottom
  have happend : (b.start tag).forest =
      (b.forest.add { tag }).insertChild i cs.length b.forest.size := by
    rw [Builder.start, h.current_eq, appendChild_eq_insertChild, children_add b.forest rfl,
      Shape.id_node, hchildren, List.length_map]
  have hr := reshaped_insertLeaf hconcat { tag } rfl
  have hk := elementOf_insertLeaf hconcat { tag }
  rw [List.append_nil, ← happend] at hr hk
  have hadd : (b.start tag).forest.elementOf (.node i (cs ++ [.node b.forest.size []])) =
      addChild { tag } (b.forest.elementOf (.node i cs)) := by
    rw [hk]
    simp [addChild]
  have hnew : (Shape.node i (cs ++ [.node b.forest.size []])).preorder =
      (Shape.node i cs).preorder ++ [b.forest.size] := by
    simp
  obtain ⟨s', hr', hspine, helement, hpreorder⟩ := h.spine.reshape h.holds hr hadd hnew
  have hdraws : (b.start tag).Draws s' (.node b.forest.size []) := by
    refine ⟨hr'.holds, hr'.id_eq.trans h.id_eq, ?_, .last hspine⟩
    rw [hpreorder, h.preorder_eq, happend, size_insertChild, size_add, List.range_succ]
  refine ⟨⟨s', _, hdraws⟩, ?_⟩
  rw [hdraws.sketch_eq, h.sketch_eq, helement]
  rfl

/-- An edit of texts at the end of the way. -/
theorem edit (h : b.Draws s bottom) {g : Forest} (hr : b.forest.Reshaped g bottom bottom)
    (hsize : g.size = b.forest.size) {k : Element → Element}
    (hk : g.elementOf bottom = k (b.forest.elementOf bottom)) :
    (∃ s' c, ({ b with forest := g } : Builder).Draws s' c) ∧
      ({ b with forest := g } : Builder).sketch =
        ⟨b.sketch.element.onSpine b.opened.length k, b.opened.length⟩ := by
  obtain ⟨s', hr', hspine, helement, hpreorder⟩ :=
    h.spine.reshape h.holds hr hk (List.append_nil _).symm
  have hdraws : ({ b with forest := g } : Builder).Draws s' bottom := by
    refine ⟨hr'.holds, hr'.id_eq.trans h.id_eq, ?_, hspine⟩
    rw [hpreorder, List.append_nil, h.preorder_eq, hsize]
  refine ⟨⟨s', _, hdraws⟩, ?_⟩
  rw [hdraws.sketch_eq, h.sketch_eq, helement]

theorem text (h : b.Draws s bottom) (t : String) :
    (∃ s' c, (b.text t).Draws s' c) ∧ (b.text t).sketch = b.sketch.step (.text t) := by
  obtain ⟨i, cs⟩ := bottom
  have hbottom := h.spine.holds h.holds
  obtain ⟨_, hchildren, _⟩ := holds_node.mp hbottom
  have hcurrent : b.current = i := h.current_eq
  rcases List.eq_nil_or_concat cs with rfl | ⟨xs, c, rfl⟩
  · have hlast : b.forest.lastChild? b.current = none := by
      rw [lastChild?, hcurrent, hchildren]
      rfl
    have hk := elementOf_setText_top hbottom (t := b.forest.text i ++ t)
    rw [Builder.text, hlast, hcurrent]
    refine h.edit (Reshaped.setText hbottom (by simp)) (by simp) (k := addText t) ?_
    rw [Shape.id_node] at hk
    rw [hk, addText, if_pos (by simp)]
    simp
  · rw [List.concat_eq_append] at hbottom hchildren h
    have hlast : b.forest.lastChild? b.current = some c.id := by
      rw [lastChild?, hcurrent, hchildren, List.map_append, List.map_singleton,
        List.getLast?_concat]
    have hk := elementOf_setTail_child hbottom (t := b.forest.tail c.id ++ t)
    have hmem : c.id ∈ (Shape.node i (xs ++ [c])).preorder := by
      rw [Shape.preorder_node]
      exact List.mem_cons_of_mem _ (Shape.id_mem_flatMap (by simp))
    rw [Builder.text, hlast]
    refine h.edit (Reshaped.setTail hbottom hmem) (by simp) (k := addText t) ?_
    rw [hk, addText, if_neg (by simp), elementOf_node, List.map_append, List.map_singleton,
      onLastChild_concat, tail_elementOf, List.map_nil]

theorem finish (h : b.Draws s bottom) :
    (∃ s' c, b.finish.Draws s' c) ∧ b.finish.sketch = b.sketch.step .finish := by
  obtain ⟨c, hc⟩ := h.spine.above
  refine ⟨⟨s, c, h.holds, h.id_eq, h.preorder_eq, hc⟩, ?_⟩
  rw [sketch, Builder.finish, List.length_tail]
  rfl

theorem step (h : b.Draws s bottom) (e : Event) :
    (∃ s' c, (b.step e).Draws s' c) ∧ (b.step e).sketch = b.sketch.step e := by
  cases e with
  | start tag => exact h.start tag
  | text t => exact h.text t
  | finish => exact h.finish
  | leaf tag t =>
    obtain ⟨⟨_, _, hstart⟩, heq⟩ := h.start tag
    obtain ⟨⟨_, _, htext⟩, heq'⟩ := hstart.text t
    obtain ⟨hfinish, heq''⟩ := htext.finish
    refine ⟨hfinish, ?_⟩
    rw [Builder.step, heq'', heq', heq, Sketch.step_leaf]

theorem run (h : b.Draws s bottom) (events : List Event) :
    (∃ s' c, (events.foldl Builder.step b).Draws s' c) ∧
      (events.foldl Builder.step b).sketch = b.sketch.run events := by
  induction events generalizing b s bottom with
  | nil => exact ⟨⟨s, bottom, h⟩, rfl⟩
  | cons e events ih =>
    obtain ⟨⟨_, _, hstep⟩, heq⟩ := h.step e
    obtain ⟨hrun, heq'⟩ := ih hstep
    refine ⟨hrun, ?_⟩
    rw [List.foldl_cons, heq', heq]
    rfl

end Draws

/-- A tree that has only its root, which is open. -/
theorem draws_new (tag : String) :
    (⟨new tag, []⟩ : Builder).Draws (.node root []) (.node root []) :=
  ⟨⟨carries_node.mpr ⟨Nat.zero_lt_one, rfl, by simp⟩, by simp⟩, rfl, rfl, .top⟩

theorem sketch_new (tag : String) : (⟨new tag, []⟩ : Builder).sketch = ⟨{ tag }, 0⟩ := by
  rw [(draws_new tag).sketch_eq]
  rfl

/-! ## Tags in the order of creation -/

/-- The tags of all nodes, in the order in which they were allocated. -/
def tags (b : Builder) : List String := (List.range b.forest.size).map b.forest.tag

theorem tags_start (b : Builder) (tag : String) : (b.start tag).tags = b.tags ++ [tag] := by
  have hold : ∀ j < b.forest.size, (b.start tag).forest.tag j = b.forest.tag j := by
    intro j hj
    rw [start, tag_appendChild, Forest.tag, node_add_of_lt hj, Forest.tag]
  have hnew : (b.start tag).forest.tag b.forest.size = tag := by
    rw [start, tag_appendChild, Forest.tag, node_add_size]
  have hsize : (b.start tag).forest.size = b.forest.size + 1 := by simp [start]
  rw [tags, hsize, List.range_succ, List.map_append, List.map_singleton, hnew, tags]
  congr 1
  exact List.map_congr_left fun j hj => hold j (List.mem_range.mp hj)

theorem tags_text (b : Builder) (t : String) : (b.text t).tags = b.tags := by
  rw [text]
  split
  · simp only [tags, size_setTail]
    exact List.map_congr_left fun j _ => tag_setTail
  · simp only [tags, size_setText]
    exact List.map_congr_left fun j _ => tag_setText

theorem tags_step (b : Builder) (e : Event) : (b.step e).tags = b.tags ++ e.started := by
  cases e with
  | start tag => exact tags_start b tag
  | text t => exact (tags_text b t).trans (List.append_nil _).symm
  | finish => exact (List.append_nil _).symm
  | leaf tag t => exact (tags_text (b.start tag) t).trans (tags_start b tag)

theorem tags_run (b : Builder) (events : List Event) :
    (events.foldl step b).tags = b.tags ++ events.flatMap Event.started := by
  induction events generalizing b with
  | nil => simp
  | cons e events ih => rw [List.foldl_cons, ih, tags_step, List.flatMap_cons, List.append_assoc]

end Builder

/-! ## The whole construction -/

/-- Whatever the events are, what is fed is the source, in order, and the nodes in document order
are those created, in order. The events of an element build it, up to the tail of its root, which no
event carries. -/
theorem Forest.ofEvents_lossless (rootTag : String) (events : List Event) :
    (ofEvents rootTag events).source = String.join (events.map Event.fed) ∧
      (ofEvents rootTag events).preorder = List.range (ofEvents rootTag events).size ∧
      (ofEvents rootTag events).preorder.map (ofEvents rootTag events).tag =
        rootTag :: events.flatMap Event.started ∧
      ∀ r : Element, (ofEvents r.tag r.events).toElement = { r with tail := "" } := by
  have hsketch : ∀ (tag : String) (events : List Event),
      (ofEvents tag events).toElement = ((⟨{ tag }, 0⟩ : Sketch).run events).element := by
    intro tag events
    have hrun := ((Builder.draws_new tag).run events).2
    rw [Builder.sketch_new] at hrun
    exact congrArg Sketch.element hrun
  obtain ⟨⟨s, c, hdraws⟩, _⟩ := (Builder.draws_new rootTag).run events
  have hpreorder : (ofEvents rootTag events).preorder = List.range (ofEvents rootTag events).size :=
    (hdraws.holds.preorder_eq hdraws.id_eq).trans hdraws.preorder_eq
  refine ⟨?_, hpreorder, ?_, fun r => ?_⟩
  · have hopen : (⟨{ tag := rootTag }, 0⟩ : Sketch).Open := .here rootTag "" []
    have hsource := Sketch.source_run hopen events
    rw [← hsketch] at hsource
    refine hsource.trans ?_
    simp [Element.source, Element.sources]
  · rw [hpreorder]
    exact Builder.tags_run ⟨new rootTag, []⟩ events
  · rw [hsketch, Sketch.run_events]

end FortranLayout
