import FortranLayout.Forest.Draft
import FortranLayout.Forest.Navigation
import FortranLayout.Proofs.Code
import FortranLayout.Proofs.Forest.Reshaped

/-!
# Passes that change layout only

A store is *relaid* when every node keeps its tag and its children, and its text and its tail keep
all characters of two given classes, in order. Relaying a store keeps whatever a view reads of it,
if the view reads no other characters (`Forest.Relaid.code_eq`).
-/

namespace FortranLayout

/-- `g` has the nodes of `f`, up to characters outside `inText` in their texts and outside `inTail`
in their tails. -/
structure Forest.Relaid (inText inTail : Char → Bool) (f g : Forest) : Prop where
  size_eq : g.size = f.size
  tag_eq : ∀ i, g.tag i = f.tag i
  children_eq : ∀ i, g.children i = f.children i
  text_eq : ∀ i, (g.text i).toList.filter inText = (f.text i).toList.filter inText
  tail_eq : ∀ i, (g.tail i).toList.filter inTail = (f.tail i).toList.filter inTail

namespace Forest

theorem shapeWithin_congr {f g : Forest} (h : ∀ i, g.children i = f.children i) (fuel i : Nat) :
    g.shapeWithin fuel i = f.shapeWithin fuel i := by
  induction fuel generalizing i with
  | zero => rfl
  | succ fuel ih =>
    simp only [shapeWithin, h, Shape.node.injEq, true_and]
    exact List.map_congr_left fun c _ => ih c

namespace Relaid

variable {inText inTail : Char → Bool} {f g h : Forest}

theorem refl (inText inTail : Char → Bool) (f : Forest) : Relaid inText inTail f f :=
  ⟨rfl, fun _ => rfl, fun _ => rfl, fun _ => rfl, fun _ => rfl⟩

theorem trans (h₁ : Relaid inText inTail f g) (h₂ : Relaid inText inTail g h) :
    Relaid inText inTail f h :=
  ⟨h₂.size_eq.trans h₁.size_eq, fun i => (h₂.tag_eq i).trans (h₁.tag_eq i),
    fun i => (h₂.children_eq i).trans (h₁.children_eq i),
    fun i => (h₂.text_eq i).trans (h₁.text_eq i), fun i => (h₂.tail_eq i).trans (h₁.tail_eq i)⟩

theorem shape_eq (h : Relaid inText inTail f g) (i : Nat) : g.shape i = f.shape i := by
  rw [shape, shape, h.size_eq]
  exact shapeWithin_congr h.children_eq _ i

/-- A relaid store holds the same shapes. -/
theorem holds {s : Shape} (h : Relaid inText inTail f g) (hf : f.Holds s) : g.Holds s :=
  ⟨hf.carries.congr_children (Nat.le_of_eq h.size_eq.symm) fun j _ => h.children_eq j, hf.nodup⟩

/-- The characters of a smaller class are kept as well. -/
theorem filter_mono {p q : Char → Bool} {s t : List Char} (hq : ∀ c, q c = true → p c = true)
    (h : s.filter p = t.filter p) : s.filter q = t.filter q := by
  have hf (s : List Char) : s.filter q = (s.filter p).filter q := by
    rw [List.filter_filter]
    refine List.filter_congr fun c _ => ?_
    cases hc : q c with
    | false => rfl
    | true => simp [hq c hc]
  rw [hf s, h, ← hf t]

theorem mono {inText' inTail' : Char → Bool} (ht : ∀ c, inText' c = true → inText c = true)
    (hl : ∀ c, inTail' c = true → inTail c = true) (h : Relaid inText inTail f g) :
    Relaid inText' inTail' f g :=
  ⟨h.size_eq, h.tag_eq, h.children_eq, fun i => filter_mono ht (h.text_eq i),
    fun i => filter_mono hl (h.tail_eq i)⟩

/-- A view that reads kept characters only reads the same of a relaid shape. -/
theorem code_elementOf {v : View} (h : Relaid v.reads v.reads f g) (s : Shape) :
    (g.elementOf s).code v = (f.elementOf s).code v := by
  induction s using Shape.induct with
  | h i cs ih =>
    have hcs : (cs.map g.elementOf).flatMap (Element.code v) =
        (cs.map f.elementOf).flatMap (Element.code v) := by
      rw [List.flatMap_map, List.flatMap_map]
      exact List.flatMap_congr ih
    have hown : Element.ownCode v (Kind.ofTag (f.tag i)) (g.text i) =
        Element.ownCode v (Kind.ofTag (f.tag i)) (f.text i) := by
      rw [Element.ownCode, Element.ownCode, View.read, View.read, h.text_eq i]
    simp only [elementOf_node, Element.code_mk, h.tag_eq i, hcs, hown, View.read, h.tail_eq i]

theorem code_eq {v : View} (h : Relaid v.reads v.reads f g) : g.code v = f.code v := by
  rw [Forest.code, Forest.code, toElement, toElement, element, element, h.shape_eq]
  exact h.code_elementOf _

/-! ## Edits of single texts -/

theorem of_nodes {f g : Forest} (h : ∀ i, g.node i = f.node i) (hs : g.size = f.size) :
    Relaid inText inTail f g :=
  ⟨hs, fun i => congrArg Node.tag (h i), fun i => congrArg Node.children (h i),
    fun i => by rw [Forest.text, h i, Forest.text], fun i => by rw [Forest.tail, h i, Forest.tail]⟩

theorem indexed (f : Forest) : Relaid inText inTail f f.indexed := by
  refine .of_nodes (fun i => ?_) ?_ <;> rw [Forest.indexed] <;> split <;> rfl

theorem setText (f : Forest) (i : Nat) {s : String}
    (hs : s.toList.filter inText = (f.text i).toList.filter inText) :
    Relaid inText inTail f (f.setText i s) := by
  refine ⟨by simp, fun j => ?_, fun j => ?_, fun j => ?_, fun j => ?_⟩ <;>
    rcases f.node_update i (fun n => { n with text := s }) j with h | ⟨rfl, _, h⟩ <;>
    simp only [Forest.tag, Forest.children, Forest.text, Forest.tail, Forest.setText] at hs ⊢ <;>
    simp [h, hs]

theorem setTail (f : Forest) (i : Nat) {s : String}
    (hs : s.toList.filter inTail = (f.tail i).toList.filter inTail) :
    Relaid inText inTail f (f.setTail i s) := by
  refine ⟨by simp, fun j => ?_, fun j => ?_, fun j => ?_, fun j => ?_⟩ <;>
    rcases f.node_update i (fun n => { n with tail := s }) j with h | ⟨rfl, _, h⟩ <;>
    simp only [Forest.tag, Forest.children, Forest.text, Forest.tail, Forest.setTail] at hs ⊢ <;>
    simp [h, hs]

end Relaid

end Forest

namespace Draft

open Forest (Relaid)

variable {inText inTail : Char → Bool} {g : List Char → List Char}

theorem relaid_editTail (hg : ∀ s, (g s).filter inTail = s.filter inTail) (d : Draft) (i : Nat) :
    Relaid inText inTail d.forest (d.editTail i g).forest := by
  rw [editTail]
  split
  · exact .refl _ _ _
  · exact .setTail _ _ (by simp [hg])

theorem relaid_editText (hg : ∀ s, (g s).filter inText = s.filter inText) (d : Draft) (i : Nat) :
    Relaid inText inTail d.forest (d.editText i g).forest := by
  rw [editText]
  split
  · exact .refl _ _ _
  · exact .setText _ _ (by simp [hg])

/-- Steps that relay do so when they are taken one after the other. -/
theorem relaid_foldl {α : Type} {step : Draft → α → Draft}
    (h : ∀ d x, Relaid inText inTail d.forest (step d x).forest) (xs : List α) (d : Draft) :
    Relaid inText inTail d.forest (xs.foldl step d).forest := by
  induction xs generalizing d with
  | nil => exact .refl _ _ _
  | cons x xs ih => exact (h d x).trans (ih (step d x))

end Draft

end FortranLayout
