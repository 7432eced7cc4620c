import FortranLayout.Forest.OfElement
import FortranLayout.Proofs.Forest.Held

/-!
# The store of an element holds it

`Forest.ofElement` numbers the elements in document order, so the store it builds holds a shape that
can be read off the element: `Element.shapeFrom 0`. What that shape denotes in the store is the
element (`Forest.elementOf_ofElement`), so that the store loses nothing of it
(`Forest.ofElement_lossless`).
-/

namespace FortranLayout

namespace Element

/-- Induction over elements: each after its children. -/
theorem induct {P : Element → Prop}
    (h : ∀ tag text tail cs, (∀ c ∈ cs, P c) → P ⟨tag, text, tail, cs⟩) : ∀ e, P e
  | ⟨tag, text, tail, cs⟩ => h tag text tail cs fun c _ => induct h c

mutual

/-- The shape of an element whose nodes are numbered in document order, beginning with `n`. -/
def shapeFrom (n : Nat) : Element → Shape
  | ⟨_, _, _, cs⟩ => .node n (shapesFrom (n + 1) cs)

/-- The shapes of several elements, numbered on from one to the next. -/
def shapesFrom (n : Nat) : List Element → List Shape
  | [] => []
  | e :: es => e.shapeFrom n :: shapesFrom (n + e.size) es

end

@[simp] theorem id_shapeFrom (n : Nat) (e : Element) : (e.shapeFrom n).id = n := by
  cases e
  simp [shapeFrom]

/-- The nodes in document order are numbered one after the other. -/
theorem preorder_shapeFrom (e : Element) (n : Nat) :
    (e.shapeFrom n).preorder = List.range' n e.size := by
  induction e using induct generalizing n with
  | h tag text tail cs ih =>
    have hcs : ∀ n, (shapesFrom n cs).flatMap Shape.preorder = List.range' n (sizes cs) := by
      induction cs with
      | nil => intro n; simp [shapesFrom, sizes]
      | cons c cs ihcs =>
        intro n
        rw [shapesFrom, List.flatMap_cons, ih c List.mem_cons_self,
          ihcs (fun d hd => ih d (List.mem_cons_of_mem _ hd)), sizes, List.range'_append_1]
    rw [shapeFrom, Shape.preorder_node, hcs, size, List.range'_succ]

/-- The tail is the end of the source. -/
theorem source_append_tail (e : Element) (t : String) :
    ({ e with tail := e.tail ++ t } : Element).source = e.source ++ t := by
  obtain ⟨tag, text, tail, cs⟩ := e
  rw [source, source]
  exact String.append_assoc.symm

end Element

namespace Forest

/-- The store `g` is `f` with the shapes `ss` entered as the last children of `parent`, where they
denote the elements `es`. -/
structure Grows (f g : Forest) (parent : Nat) (ss : List Shape) (es : List Element) : Prop where
  size_eq : g.size = f.size + Element.sizes es
  parent_eq : g.node parent =
    { f.node parent with children := (f.node parent).children ++ ss.map Shape.id }
  frame : ∀ j : Nat, j < f.size → j ≠ parent → g.node j = f.node j
  carries : ∀ s ∈ ss, g.Carries s
  elements : ss.map g.elementOf = es
  above : ∀ j : Nat, j ∈ ss.flatMap Shape.preorder → f.size ≤ j

theorem Grows.append {f g h : Forest} {parent : Nat} {ss ts : List Shape} {es es' : List Element}
    (hp : parent < f.size) (h₁ : f.Grows g parent ss es) (h₂ : g.Grows h parent ts es') :
    f.Grows h parent (ss ++ ts) (es ++ es') := by
  have hlt : parent < g.size := by have := h₁.size_eq; omega
  -- The shapes entered first are below the new ones in number and apart from the parent.
  have hkeep : ∀ s ∈ ss, ∀ j : Nat, j ∈ s.preorder → h.node j = g.node j := by
    intro s hs j hj
    have hj' := h₁.above j (List.mem_flatMap.mpr ⟨s, hs, hj⟩)
    exact h₂.frame j ((h₁.carries s hs).mem_lt j hj) (by omega)
  refine ⟨?_, ?_, ?_, ?_, ?_, ?_⟩
  · rw [h₂.size_eq, h₁.size_eq, Element.sizes_append, Nat.add_assoc]
  · rw [h₂.parent_eq, h₁.parent_eq]
    simp
  · intro j hj hne
    rw [h₂.frame j (by have := h₁.size_eq; omega) hne, h₁.frame j hj hne]
  · intro s hs
    rcases List.mem_append.mp hs with hs | hs
    · exact (h₁.carries s hs).congr (by have := h₂.size_eq; omega) (hkeep s hs)
    · exact h₂.carries s hs
  · rw [List.map_append, h₂.elements, ← h₁.elements]
    congr 1
    exact List.map_congr_left fun s hs => elementOf_congr (hkeep s hs)
  · intro j hj
    rw [List.flatMap_append, List.mem_append] at hj
    rcases hj with hj | hj
    · exact h₁.above j hj
    · have := h₂.above j hj
      have := h₁.size_eq
      omega

theorem grows_addElements {es : List Element}
    (ih : ∀ e ∈ es, ∀ (f : Forest) (parent : Nat), parent < f.size →
      f.Grows (f.addElement parent e) parent [e.shapeFrom f.size] [e])
    (f : Forest) (parent : Nat) (hp : parent < f.size) :
    f.Grows (f.addElements parent es) parent (Element.shapesFrom f.size es) es := by
  induction es generalizing f with
  | nil =>
    exact ⟨by simp [addElements, Element.sizes], by simp [addElements, Element.shapesFrom],
      fun _ _ _ => by simp [addElements], by simp [Element.shapesFrom],
      by simp [Element.shapesFrom], by simp [Element.shapesFrom]⟩
  | cons e es ihes =>
    have h₁ := ih e List.mem_cons_self f parent hp
    have hsize : (f.addElement parent e).size = f.size + e.size := by
      rw [h₁.size_eq]
      simp [Element.sizes]
    have h₂ := ihes (fun e' he => ih e' (List.mem_cons_of_mem _ he)) (f.addElement parent e)
      (by omega)
    rw [hsize] at h₂
    rw [addElements, Element.shapesFrom]
    exact Grows.append hp h₁ h₂

theorem grows_addElement (e : Element) (f : Forest) (parent : Nat) (hp : parent < f.size) :
    f.Grows (f.addElement parent e) parent [e.shapeFrom f.size] [e] := by
  induction e using Element.induct generalizing f parent with
  | h tag text tail cs ih =>
    let f₁ := (f.add { tag, text, tail }).appendChild parent f.size
    have hsize : f₁.size = f.size + 1 := by simp [f₁]
    have hnew : f₁.node f.size = { tag, text, tail } := by
      rw [node_appendChild_of_ne (by omega), node_add_size]
    have hpar : f₁.node parent =
        { f.node parent with children := (f.node parent).children ++ [f.size] } := by
      rw [node_appendChild_self (by rw [size_add]; omega), node_add_of_lt hp]
    have h := grows_addElements ih f₁ f.size (by omega)
    rw [hsize] at h
    have htop := h.parent_eq
    rw [hnew] at htop
    refine ⟨?_, ?_, ?_, ?_, ?_, ?_⟩
    · rw [addElement, h.size_eq, hsize]
      simp only [Element.sizes, Element.size]
      omega
    · rw [addElement, h.frame parent (by omega) (by omega), hpar, Element.shapeFrom]
      simp
    · intro j hj hne
      rw [addElement, h.frame j (by omega) (by omega), node_appendChild_of_ne hne,
        node_add_of_lt hj]
    · intro s hs
      obtain rfl := List.mem_singleton.mp hs
      rw [addElement, Element.shapeFrom]
      refine carries_node.mpr ⟨by rw [h.size_eq]; omega, ?_, h.carries⟩
      exact congrArg Node.children htop
    · rw [addElement, Element.shapeFrom, List.map_singleton, elementOf_node, h.elements,
        List.singleton_inj, Element.mk.injEq]
      exact ⟨congrArg Node.tag htop, congrArg Node.text htop, congrArg Node.tail htop, rfl⟩
    · intro j hj
      simp only [List.flatMap_cons, List.flatMap_nil, List.append_nil,
        Element.preorder_shapeFrom, List.mem_range'_1] at hj
      exact hj.1

theorem grows_ofElement (tag text tail : String) (cs : List Element) :
    ({ nodes := #[{ tag, text, tail }] } : Forest).Grows (ofElement ⟨tag, text, tail, cs⟩) root
      (Element.shapesFrom 1 cs) cs :=
  grows_addElements (fun e _ => grows_addElement e) { nodes := #[{ tag, text, tail }] } root
    Nat.zero_lt_one

/-- The store of an element holds it, its nodes numbered in document order. -/
theorem holds_ofElement (e : Element) : (ofElement e).Holds (e.shapeFrom 0) := by
  obtain ⟨tag, text, tail, cs⟩ := e
  have h := grows_ofElement tag text tail cs
  refine ⟨carries_node.mpr ⟨?_, ?_, h.carries⟩, ?_⟩
  · rw [h.size_eq]
    exact Nat.add_pos_left Nat.zero_lt_one _
  · exact congrArg Node.children h.parent_eq
  · rw [Element.preorder_shapeFrom]
    exact List.nodup_range'

theorem size_ofElement (e : Element) : (ofElement e).size = e.size := by
  obtain ⟨tag, text, tail, cs⟩ := e
  rw [(grows_ofElement tag text tail cs).size_eq, Element.size, Nat.add_comm]
  rfl

theorem mem_preorder_of_lt {e : Element} {i : NodeId} (h : i < (ofElement e).size) :
    i ∈ (e.shapeFrom 0).preorder := by
  rw [size_ofElement] at h
  rw [Element.preorder_shapeFrom, List.mem_range'_1]
  exact ⟨Nat.zero_le i, by simpa using h⟩

@[simp] theorem elementOf_ofElement (e : Element) :
    (ofElement e).elementOf (e.shapeFrom 0) = e := by
  obtain ⟨tag, text, tail, cs⟩ := e
  have h := grows_ofElement tag text tail cs
  have hroot := h.parent_eq
  rw [Element.shapeFrom, elementOf_node, Element.mk.injEq]
  exact ⟨congrArg Node.tag hroot, congrArg Node.text hroot, congrArg Node.tail hroot, h.elements⟩

@[simp] theorem toElement_ofElement (e : Element) : (ofElement e).toElement = e := by
  rw [(holds_ofElement e).toElement_eq (by simp [root]), elementOf_ofElement]

/-! ## Nothing is lost -/

/-- The pieces written out for a shape make up the source of what it denotes. -/
theorem join_piecesOf (f : Forest) (s : Shape) :
    String.join (f.piecesOf s) = (f.elementOf s).source := by
  induction s using Shape.induct with
  | h i cs ih =>
    have hcs : String.join (f.piecesBelow cs) = Element.sources (cs.map f.elementOf) := by
      induction cs with
      | nil => rfl
      | cons c cs ihcs =>
        rw [piecesBelow, String.join_append, ih c List.mem_cons_self,
          ihcs fun d hd => ih d (List.mem_cons_of_mem _ hd), List.map_cons, Element.sources]
    rw [piecesOf, String.join_cons, String.join_append, String.join_cons, String.join_nil,
      String.append_empty, hcs, elementOf_node, Element.source, String.append_assoc]

/-- The store of an element gives it back: as an element, as its source in both ways of writing it,
and with its nodes in document order numbered from zero. -/
theorem ofElement_lossless (e : Element) :
    (ofElement e).toElement = e ∧ (ofElement e).source = e.source ∧
      (ofElement e).writeSource = e.source ∧ (ofElement e).preorder = List.range e.size := by
  have hholds := holds_ofElement e
  have hroot : (e.shapeFrom 0).id = root := e.id_shapeFrom 0
  have hshape : (ofElement e).shape root = e.shapeFrom 0 := hroot ▸ hholds.shape_eq
  refine ⟨toElement_ofElement e, ?_, ?_, ?_⟩
  · exact congrArg Element.source (toElement_ofElement e)
  · rw [writeSource, hshape, join_piecesOf, elementOf_ofElement]
  · rw [hholds.preorder_eq hroot, Element.preorder_shapeFrom, List.range_eq_range']

end Forest

end FortranLayout
