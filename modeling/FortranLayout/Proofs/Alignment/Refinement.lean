import FortranLayout.Proofs.Alignment.Margin
import FortranLayout.Proofs.Forest.Retailed
import FortranLayout.Proofs.LineLayout

/-!
# The store follows the alignment

Aligning changes nothing of the store but tails, and the tails are those that the alignment of
elements gives (`Alignment.retailed_alignBelow`).
-/

namespace FortranLayout

/-- Below each node of the shape the class of the statement around is found from the class above. -/
def Forest.Classed (f : Forest) (s : Shape) : Prop :=
  ∀ p : Nat, p ∈ s.preorder → ∀ c : Nat, c ∈ f.children p →
    f.anchorClass c = (f.anchorClass p).within (f.kind c)

theorem Forest.Retailed.classed {f g : Forest} {js : List Nat} {s : Shape} (hr : f.Retailed g js)
    (hs : f.Classed s) : g.Classed s := by
  intro p hp c hc
  rw [hr.children_eq] at hc
  rw [hr.anchorClass_eq, hr.anchorClass_eq, hr.kind_eq]
  exact hs p hp c hc

namespace Alignment

open Forest
open Element (alignBelow_with_tail alignAll)

variable {a : Alignment} {p i : Nat} {next : Option Kind}

/-- The margin that an alignment has reached. -/
def margin (a : Alignment) : Margin := ⟨a.line, a.column⟩

/-! ## One element -/

theorem findColumn_spec (a : Alignment) (p : Nat) (next : Option Kind) :
    (a.findColumn p next).margin = a.margin.findColumn (a.forest.anchorClass p) next ∧
      (a.findColumn p next).forest = a.forest := by
  obtain ⟨f, n, line, column⟩ := a
  cases column <;> exact ⟨rfl, rfl⟩

theorem alignTail_spec (hi : i < a.forest.size) (column : Nat) :
    (a.alignTail i column).margin = a.margin ∧
      a.forest.Retailed (a.alignTail i column).forest [i] ∧
      (a.alignTail i column).forest.tail i = Margin.startAt (a.forest.tail i) column := by
  rw [alignTail]
  split
  · rename_i heq
    exact ⟨rfl, .refl _ _, heq.symm⟩
  · refine ⟨rfl, .setTail (by simp) _, ?_⟩
    exact congrArg Node.tail (node_setTail_self hi _)

theorem alignAfter_spec (hi : i < a.forest.size) (next : Option Kind) (afterComment : Bool) :
    (a.alignAfter p i next afterComment).margin =
        a.margin.found (a.forest.anchorClass p) (a.forest.kind i) (a.forest.tail i) next ∧
      a.forest.Retailed (a.alignAfter p i next afterComment).forest [i] ∧
      (a.alignAfter p i next afterComment).forest.tail i =
        a.margin.tailAfter (a.forest.anchorClass p) (a.forest.kind i) (a.forest.tail i) next
          afterComment := by
  have hcontinues : (a.isEndMarker i next || (afterComment && a.forest.kind i == .comment) ||
      (a.column.isSome && a.forest.kind i == .directive)) =
        a.margin.continues (a.forest.kind i) (a.forest.tail i) next afterComment := rfl
  have hend : a.isEndMarker i next = Margin.isEnd (a.forest.kind i) (a.forest.tail i) next := rfl
  have hfound : (if a.isEndMarker i next then a.findColumn p next else a).margin =
        a.margin.found (a.forest.anchorClass p) (a.forest.kind i) (a.forest.tail i) next ∧
      (if a.isEndMarker i next then a.findColumn p next else a).forest = a.forest := by
    rw [Margin.found, ← hend]
    split
    · exact findColumn_spec a p next
    · exact ⟨rfl, rfl⟩
  rw [alignAfter, hcontinues, Margin.tailAfter]
  dsimp only
  generalize (if a.isEndMarker i next then a.findColumn p next else a) = b at hfound ⊢
  obtain ⟨hmargin, hforest⟩ := hfound
  cases hc : a.margin.continues (a.forest.kind i) (a.forest.tail i) next afterComment with
  | false =>
    -- A marker that ends a line is always continued, so no column was looked for.
    have hnot : Margin.isEnd (a.forest.kind i) (a.forest.tail i) next = false := by
      rw [Margin.continues, Bool.or_eq_false_iff, Bool.or_eq_false_iff] at hc
      exact hc.1.1
    rw [Margin.found, hnot]
    exact ⟨rfl, .refl _ _, rfl⟩
  | true =>
    rw [if_pos rfl, Bool.true_and]
    cases hn : next == some .directive with
    | true =>
      rw [if_pos rfl, bne, hn, hforest]
      exact ⟨hmargin, .refl _ _, rfl⟩
    | false =>
      have hi' : i < b.forest.size := by
        rw [hforest]
        exact hi
      obtain ⟨h₁, h₂, h₃⟩ := alignTail_spec hi' (b.column.getD AnchorClass.standardColumn)
      rw [if_neg Bool.false_ne_true, bne, hn, Bool.not_false, if_pos rfl, ← hmargin, ← hforest]
      exact ⟨h₁, h₂, h₃⟩

theorem margin_readText (a : Alignment) (i : Nat) :
    (a.readText i).margin = a.margin.readText (a.forest.kind i) (a.forest.text i) := by
  unfold readText Margin.readText
  cases a.forest.kind i <;> rfl

theorem margin_readTail (a : Alignment) (i : Nat) :
    (a.readTail i).margin = a.margin.readTail (a.forest.kind i) (a.forest.tail i) := by
  rw [readTail, Margin.readTail]
  have hline : a.margin.line = a.line := rfl
  rw [hline]
  cases afterLastNewline? (a.line ++ (a.forest.tail i).toList) with
  | none => rfl
  | some rest => cases a.forest.kind i <;> rfl

/-! ## All elements -/

/-- The store after aligning below a shape is what aligning the element gives. -/
def FollowsBelow (s : Shape) : Prop :=
  ∀ (a : Alignment) (c : AnchorClass), a.forest.Holds s → a.forest.Classed s →
    a.forest.anchorClass s.id = c.within (a.forest.kind s.id) →
    (alignBelow s a).margin = ((a.forest.elementOf s).alignBelow c a.margin).2 ∧
      (alignBelow s a).forest.elementOf s =
        { a.forest.elementOf s with
          children := ((a.forest.elementOf s).alignBelow c a.margin).1 } ∧
      a.forest.Retailed (alignBelow s a).forest s.preorder.tail

/-- The shapes that are still to be visited below `p`. -/
structure Visitable (f : Forest) (p : Nat) (cs : List Shape) : Prop where
  holds : ∀ s ∈ cs, f.Holds s
  nodup : (cs.flatMap Shape.preorder).Nodup
  classed : ∀ s ∈ cs, f.Classed s
  class_eq : ∀ s ∈ cs, f.anchorClass s.id = (f.anchorClass p).within (f.kind s.id)

theorem Visitable.retailed {f g : Forest} {cs : List Shape} {js : List Nat}
    (hv : Visitable f p cs) (hr : f.Retailed g js) : Visitable g p cs := by
  refine ⟨fun s hs => ⟨hr.carries (hv.holds s hs).carries, (hv.holds s hs).nodup⟩, hv.nodup,
    fun s hs => hr.classed (hv.classed s hs), fun s hs => ?_⟩
  rw [hr.anchorClass_eq, hr.anchorClass_eq, hr.kind_eq]
  exact hv.class_eq s hs

theorem Visitable.rest {f : Forest} {s : Shape} {cs : List Shape} (hv : Visitable f p (s :: cs)) :
    Visitable f p cs :=
  ⟨fun t ht => hv.holds t (List.mem_cons_of_mem _ ht), (List.nodup_append'.mp hv.nodup).2.1,
    fun t ht => hv.classed t (List.mem_cons_of_mem _ ht),
    fun t ht => hv.class_eq t (List.mem_cons_of_mem _ ht)⟩

/-- The shapes below a node of a held shape. -/
theorem visitable_of_holds {f : Forest} {cs : List Shape} (hf : f.Holds (.node p cs))
    (hclassed : f.Classed (.node p cs)) : Visitable f p cs := by
  obtain ⟨_, hc, _, _, hnodup⟩ := holds_node.mp hf
  exact ⟨fun t ht => hf.child ht, hnodup,
    fun t ht q hq => hclassed q (Shape.preorder_subset p ht hq),
    fun t ht => hclassed p (by simp) t.id (hc ▸ List.mem_map_of_mem ht)⟩

theorem nextKind_elementOf (f : Forest) (cs : List Shape) :
    ((cs.map f.elementOf).head?.map Element.kind).or none = cs.head?.map fun t => f.kind t.id := by
  cases cs <;> simp [kind_elementOf]

/-- One element: its tail, its text, what is below it, and its tail once more. -/
theorem visit_spec {s : Shape} (hs : FollowsBelow s) (hheld : a.forest.Holds s)
    (hclassed : a.forest.Classed s)
    (hclass : a.forest.anchorClass s.id = (a.forest.anchorClass p).within (a.forest.kind s.id))
    (next : Option Kind) (afterComment : Bool) {e : Element} (he : e = a.forest.elementOf s)
    {b : Alignment}
    (hb :
      b = (alignBelow s ((a.alignAfter p s.id next afterComment).readText s.id)).readTail s.id) :
    let c := a.forest.anchorClass p
    let tail := a.margin.tailAfter c e.kind e.tail next afterComment
    let below := e.alignBelow c ((a.margin.found c e.kind e.tail next).readText e.kind e.text)
    b.margin = below.2.readTail e.kind tail ∧
      b.forest.elementOf s = { e with tail := tail, children := below.1 } ∧
      a.forest.Retailed b.forest s.preorder := by
  have hkind : e.kind = a.forest.kind s.id := by rw [he, kind_elementOf]
  have htail : e.tail = a.forest.tail s.id := by rw [he, tail_elementOf]
  have htext : e.text = a.forest.text s.id := by rw [he, text_elementOf]
  obtain ⟨hm₁, hr₁, ht₁⟩ := alignAfter_spec (p := p) hheld.carries.id_lt next afterComment
  generalize hb₁ : a.alignAfter p s.id next afterComment = b₁ at hb hm₁ hr₁ ht₁
  -- Reading the text does not touch the store.
  have hm₂ := margin_readText b₁ s.id
  have hf₂ := forest_readText b₁ s.id
  generalize b₁.readText s.id = b₂ at hb hm₂ hf₂
  have hr₂ : a.forest.Retailed b₂.forest [s.id] := hf₂ ▸ hr₁
  have he₂ := hr₂.elementOf_top hheld
  have hclass₂ : b₂.forest.anchorClass s.id =
      (a.forest.anchorClass p).within (b₂.forest.kind s.id) := by
    rw [hr₂.anchorClass_eq, hr₂.kind_eq]
    exact hclass
  obtain ⟨hm₃, he₃, hr₃⟩ :=
    hs b₂ _ ⟨hr₂.carries hheld.carries, hheld.nodup⟩ (hr₂.classed hclassed) hclass₂
  generalize alignBelow s b₂ = b₃ at hb hm₃ he₃ hr₃
  have ht₂ : b₂.forest.tail s.id =
      a.margin.tailAfter (a.forest.anchorClass p) e.kind e.tail next afterComment := by
    rw [hf₂, ht₁, hkind, htail]
  have hm₂' : b₂.margin =
      (a.margin.found (a.forest.anchorClass p) e.kind e.tail next).readText e.kind e.text := by
    rw [hm₂, hm₁, hr₁.kind_eq, hr₁.text_eq, hkind, htail, htext]
  rw [he₂, ht₂, ← he, alignBelow_with_tail, hm₂'] at hm₃ he₃
  have ht₃ : b₃.forest.tail s.id =
      a.margin.tailAfter (a.forest.anchorClass p) e.kind e.tail next afterComment := by
    rw [← tail_elementOf, he₃]
  have hsub : [s.id] ⊆ s.preorder := List.cons_subset.mpr ⟨s.id_mem_preorder, List.nil_subset _⟩
  have hr : a.forest.Retailed b₃.forest s.preorder :=
    (hr₂.mono hsub).trans (hr₃.mono (List.tail_sublist _).subset)
  subst hb
  refine ⟨?_, ?_, ?_⟩
  · rw [margin_readTail, hm₃, hr.kind_eq, ht₃, hkind]
  · rw [forest_readTail, he₃]
  · rw [forest_readTail]
    exact hr

theorem alignFrom_spec {cs : List Shape} (ih : ∀ s ∈ cs, FollowsBelow s) (afterComment : Bool)
    {a : Alignment} (hv : Visitable a.forest p cs) {r : List Element × Margin}
    (hr : r = alignAll (a.forest.anchorClass p) afterComment none a.margin
      (cs.map a.forest.elementOf)) :
    (alignFrom p afterComment cs a).margin = r.2 ∧
      cs.map (alignFrom p afterComment cs a).forest.elementOf = r.1 ∧
      a.forest.Retailed (alignFrom p afterComment cs a).forest (cs.flatMap Shape.preorder) := by
  induction cs generalizing afterComment a r with
  | nil =>
    rw [hr, alignFrom]
    exact ⟨rfl, rfl, .refl _ _⟩
  | cons s rest ihrest =>
    have hapart : List.Disjoint s.preorder (rest.flatMap Shape.preorder) :=
      List.disjoint_of_nodup_append hv.nodup
    rw [List.map_cons, alignAll, nextKind_elementOf, kind_elementOf, tail_elementOf] at hr
    rw [alignFrom]
    have hend : ∀ next, a.isEndMarker s.id next =
      Margin.isEnd (a.forest.kind s.id) (a.forest.tail s.id) next := fun _ => rfl
    simp only [hend]
    generalize (rest.head?.map fun t => a.forest.kind t.id) = next at hr ⊢
    generalize (afterComment ||
      (Margin.isEnd (a.forest.kind s.id) (a.forest.tail s.id) next && next == some .comment)) =
        afterComment' at hr ⊢
    obtain ⟨hm, he, hb⟩ := visit_spec (ih s List.mem_cons_self) (hv.holds s List.mem_cons_self)
      (hv.classed s List.mem_cons_self) (hv.class_eq s List.mem_cons_self) next afterComment'
      rfl rfl
    generalize
      (alignBelow s ((a.alignAfter p s.id next afterComment').readText s.id)).readTail s.id = b
      at hm he hb ⊢
    obtain ⟨hm', he', hb'⟩ := ihrest (fun t ht => ih t (List.mem_cons_of_mem _ ht))
      (afterComment' && (a.forest.kind s.id == .comment || a.forest.kind s.id == .continuation))
      (hv.rest.retailed hb) rfl
    have hrest : rest.map b.forest.elementOf = rest.map a.forest.elementOf :=
      hb.map_elementOf_eq hapart
    rw [hb.anchorClass_eq, hrest, hm, kind_elementOf, tail_elementOf] at hm' he'
    have hs' : (alignFrom p
        (afterComment' && (a.forest.kind s.id == .comment || a.forest.kind s.id == .continuation))
        rest b).forest.elementOf s = b.forest.elementOf s := hb'.elementOf_eq hapart
    refine ⟨?_, ?_, ?_⟩
    · rw [hm', hr]
    · rw [List.map_cons, hs', he, he', hr]
      rw [kind_elementOf, tail_elementOf]
    · rw [List.flatMap_cons]
      exact (hb.mono (List.subset_append_left _ _)).trans (hb'.mono (List.subset_append_right _ _))

theorem followsBelow (s : Shape) : FollowsBelow s := by
  induction s using Shape.induct with
  | h i cs ih =>
    intro a c hheld hclassed hclass
    obtain ⟨_, _, _, hi, _⟩ := holds_node.mp hheld
    rw [Shape.id_node] at hclass
    obtain ⟨hm, he, hr⟩ := alignFrom_spec ih false (visitable_of_holds hheld hclassed) rfl
    rw [alignBelow, elementOf_node, Element.alignBelow_mk, Shape.preorder_node, List.tail_cons]
    rw [hclass] at hm he
    refine ⟨hm, ?_, hr⟩
    -- The top is not among the nodes whose tails may have changed.
    have htop := hr.frame i hi
    rw [elementOf_node, he, tag, text, tail, htop]
    rfl

/-- Aligning a tree with its index gives it other tails, those of the aligned element. -/
theorem retailed_alignBelow {f : Forest} {s : Shape} (hi : f.Indexable) (hf : f.Holds s)
    (hs : s.id = root) :
    f.indexed.Retailed (alignBelow (f.shape root) { forest := f.indexed }).forest s.preorder.tail ∧
      (alignBelow (f.shape root) { forest := f.indexed }).forest.toElement =
        f.toElement.aligned := by
  obtain ⟨_, he, hr⟩ := followsBelow s { forest := f.indexed } .generic hf.indexed
    (hi.anchorClass_child hf hs) (hi.anchorClass_root hf hs)
  rw [← hs, hf.shape_eq, Holds.toElement_eq ⟨hr.carries hf.indexed.carries, hf.nodup⟩ hs, he,
    elementOf_indexed, hf.toElement_eq hs]
  exact ⟨hr, rfl⟩

end Alignment

end FortranLayout
