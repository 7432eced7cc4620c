import FortranLayout.Proofs.Forest.Retailed
import FortranLayout.Proofs.Spacing.Keywords
import FortranLayout.Proofs.Spacing.Punctuation

/-!
# Steps that act on the gaps of a store

A store has a slot for the text and one for the tail of each node. A `SpacingFrame` is a store with
the rules by which it is to be spaced. It admits what spacing can make of the store: the nodes, the
characters other than blanks in each slot, and which of the frozen gaps are empty stay the same. A
step *acts* on a frame if it applies the same rules to the gaps of all stores that the frame admits;
steps that act can be taken one after the other, and acting twice is acting once
(`SpacingFrame.Acts.twice`).

Tabs are expanded node by node, so at any time some tails are still pending: the frame admits them
if they are as they should be once their tabs are expanded.
-/

namespace FortranLayout

open Text (spread squeeze Inked GapRule regap Alike Steady Between Paired ArrowGaps WordGaps)

/-! ## Slots -/

/-- A place of the store that holds a text. -/
inductive TextSlot where
  | text (i : NodeId)
  | tail (i : NodeId)
deriving DecidableEq

/-- The node of a slot. -/
def TextSlot.id : TextSlot → NodeId
  | text i => i
  | tail i => i

/-- What a slot holds. -/
def Forest.slot (f : Forest) : TextSlot → List Char
  | .text i => (f.text i).toList
  | .tail i => (f.tail i).toList

/-- `g` has the nodes of `f`, with other texts and tails. -/
structure Forest.SameShape (f g : Forest) : Prop where
  size_eq : g.size = f.size
  tag_eq : ∀ i, g.tag i = f.tag i
  children_eq : ∀ i, g.children i = f.children i
  parent?_eq : ∀ i, g.parent? i = f.parent? i

namespace Forest.SameShape

variable {f g h : Forest}

theorem refl (f : Forest) : f.SameShape f := ⟨rfl, fun _ => rfl, fun _ => rfl, fun _ => rfl⟩

theorem trans (h₁ : f.SameShape g) (h₂ : g.SameShape h) : f.SameShape h :=
  ⟨h₂.size_eq.trans h₁.size_eq, fun i => (h₂.tag_eq i).trans (h₁.tag_eq i),
    fun i => (h₂.children_eq i).trans (h₁.children_eq i),
    fun i => (h₂.parent?_eq i).trans (h₁.parent?_eq i)⟩

theorem setTail (f : Forest) (i : Nat) (s : String) : f.SameShape (f.setTail i s) := by
  have hr : Relaid (fun _ => false) (fun _ => false) f (f.setTail i s) := .setTail f i (by simp)
  exact ⟨hr.size_eq, hr.tag_eq, hr.children_eq, parent?_congr hr.size_eq hr.children_eq rfl rfl⟩

theorem setText (f : Forest) (i : Nat) (s : String) : f.SameShape (f.setText i s) := by
  have hr : Relaid (fun _ => false) (fun _ => false) f (f.setText i s) := .setText f i (by simp)
  exact ⟨hr.size_eq, hr.tag_eq, hr.children_eq, parent?_congr hr.size_eq hr.children_eq rfl rfl⟩

theorem indexed (f : Forest) : f.SameShape f.indexed := by
  refine ⟨size_indexed f, fun i => congrArg Node.tag (node_indexed f i),
    fun i => congrArg Node.children (node_indexed f i), fun i => ?_⟩
  rw [Forest.indexed]
  split
  · rename_i hindexes
    simp only [parent?, hindexes, if_true]
    rfl
  · rfl

theorem kind_eq (h : f.SameShape g) (i : Nat) : g.kind i = f.kind i :=
  congrArg Kind.ofTag (h.tag_eq i)

theorem hasChildren_eq (h : f.SameShape g) (i : Nat) : g.hasChildren i = f.hasChildren i := by
  rw [hasChildren, h.children_eq, hasChildren]

theorem childOfKind?_eq (h : f.SameShape g) (i : Nat) (k : Kind) :
    g.childOfKind? i k = f.childOfKind? i k := by
  simp only [childOfKind?, h.children_eq, h.kind_eq]

theorem previousSibling?_eq (h : f.SameShape g) (i : Nat) :
    g.previousSibling? i = f.previousSibling? i := by
  simp only [previousSibling?, siblingsBefore, position?, childIndex?, h.parent?_eq, h.children_eq]

theorem isTarget_eq (h : f.SameShape g) (target : KeywordTarget) (i : Nat) :
    SpacingRules.isTarget g target i = SpacingRules.isTarget f target i := by
  cases target <;> simp only [SpacingRules.isTarget, h.kind_eq, h.parent?_eq]

end Forest.SameShape

theorem Forest.slot_indexed (f : Forest) (a : TextSlot) : f.indexed.slot a = f.slot a := by
  cases a <;> rw [slot, slot] <;> simp only [text, tail, node_indexed]

namespace Draft

/-- Edits what a slot holds. -/
def editSlot (d : Draft) : TextSlot → (List Char → List Char) → Draft
  | .text i, g => d.editText i g
  | .tail i, g => d.editTail i g

variable {d : Draft} {a b : TextSlot} {g : List Char → List Char}

theorem sameShape_editSlot (d : Draft) (a : TextSlot) (g : List Char → List Char) :
    d.forest.SameShape (d.editSlot a g).forest := by
  cases a with
  | text i =>
    rw [editSlot, editText]
    split
    · exact .refl _
    · exact .setText _ _ _
  | tail i =>
    rw [editSlot, editTail]
    split
    · exact .refl _
    · exact .setTail _ _ _

theorem slot_editSlot_self (ha : a.id < d.forest.size) :
    (d.editSlot a g).forest.slot a = g (d.forest.slot a) := by
  have hsame {s : String} (h : String.ofList (g s.toList) = s) : s.toList = g s.toList := by
    have hlist := congrArg String.toList h
    rw [String.toList_ofList] at hlist
    exact hlist.symm
  cases a with
  | text i =>
    rw [editSlot, editText]
    split
    · rename_i h
      exact hsame h
    · have hi : i < d.forest.size := ha
      rw [Forest.slot, Forest.text, Forest.node_setText_self hi, String.toList_ofList, Forest.slot]
  | tail i =>
    rw [editSlot, editTail]
    split
    · rename_i h
      exact hsame h
    · have hi : i < d.forest.size := ha
      rw [Forest.slot, Forest.tail, Forest.node_setTail_self hi, String.toList_ofList, Forest.slot]

theorem slot_editSlot_of_ne (h : b ≠ a) : (d.editSlot a g).forest.slot b = d.forest.slot b := by
  cases a with
  | text i =>
    rw [editSlot, editText]
    split
    · rfl
    · generalize String.ofList (g (d.forest.text i).toList) = s
      rcases d.forest.node_update i (fun n => { n with text := s }) b.id with hn | ⟨hid, _, hn⟩
      · cases b <;> simp only [Forest.slot, Forest.text, Forest.tail, Forest.setText,
          TextSlot.id] at hn ⊢ <;>
          rw [hn]
      · cases b with
        | text j => exact absurd (congrArg TextSlot.text hid) h
        | tail j =>
          simp only [Forest.slot, Forest.tail, Forest.setText, TextSlot.id] at hn ⊢
          rw [hn]
  | tail i =>
    rw [editSlot, editTail]
    split
    · rfl
    · generalize String.ofList (g (d.forest.tail i).toList) = s
      rcases d.forest.node_update i (fun n => { n with tail := s }) b.id with hn | ⟨hid, _, hn⟩
      · cases b <;> simp only [Forest.slot, Forest.text, Forest.tail, Forest.setTail,
          TextSlot.id] at hn ⊢ <;>
          rw [hn]
      · cases b with
        | tail j => exact absurd (congrArg TextSlot.tail hid) h
        | text j =>
          simp only [Forest.slot, Forest.text, Forest.setTail, TextSlot.id] at hn ⊢
          rw [hn]

end Draft

/-! ## Frames -/

/-- A tail with its tabs expanded, if the rules say so. -/
def SpacingRules.expanded (r : SpacingRules) (s : List Char) : List Char :=
  if r.expandTabs then Text.expandTabs s else s

/-- A store and the rules by which it is to be spaced. -/
structure SpacingFrame where
  rules : SpacingRules
  forest : Forest

namespace SpacingFrame

/-- What a slot holds, a tail with its tabs expanded. -/
def content (w : SpacingFrame) : TextSlot → List Char
  | .text i => (w.forest.text i).toList
  | .tail i => w.rules.expanded (w.forest.tail i).toList

/-- The characters of a slot other than blanks. -/
def skeleton (w : SpacingFrame) (a : TextSlot) : List Char := squeeze (w.content a)

/-- The gaps of a slot. -/
def gaps (w : SpacingFrame) (a : TextSlot) : Nat → Nat := Text.gapsOf (w.content a)

/-- The node is the condition before a THEN whose distance is set. -/
def BeforeThen (w : SpacingFrame) (i : NodeId) : Prop :=
  w.rules.beforeThen ≠ .keep ∧ ∃ p, w.forest.parent? i = some p ∧
    (w.forest.kind p = .ifThenStmt ∨ w.forest.kind p = .elseIfStmt) ∧
    w.forest.childOfKind? p .condition = some i

/-- The gaps that no step may fill or empty: those inside keywords, inside arrows that may be
written in the place of an equals sign, and in a THEN. -/
def frozen (w : SpacingFrame) : TextSlot → Nat → Prop
  | .text i => Between (w.skeleton (.text i)) (Paired (keywordPairs w.forest i))
  | .tail i => fun k =>
    (w.forest.kind i = .enumeratorName ∨ w.forest.kind i = .namedConstant) ∧
        ArrowGaps (w.skeleton (.tail i)) k ∨
      w.BeforeThen i ∧ WordGaps (w.skeleton (.tail i)) k

/-- The text of a slot once its tabs are expanded, if that is pending. -/
def settled (pending : List NodeId) : TextSlot → List Char → List Char
  | .text _, s => s
  | .tail i, s => if i ∈ pending then Text.expandTabs s else s

/-- The draft has the nodes and the characters of the frame, with the gaps `γ`. -/
structure Admits (w : SpacingFrame) (pending : List NodeId) (γ : TextSlot → Nat → Nat)
    (d : Draft) : Prop where
  shape : w.forest.SameShape d.forest
  slot_eq : ∀ a : TextSlot, a.id < w.forest.size →
    settled pending a (d.forest.slot a) = spread (w.skeleton a) (γ a)
  alike : ∀ a : TextSlot, Alike (w.frozen a) (w.gaps a) (γ a)

/-- A step that applies one rule to each gap, whatever the draft. It may leave fewer tails pending.
-/
def Acts (w : SpacingFrame) (before after : List NodeId) (step : Draft → Draft) : Prop :=
  ∃ σ : TextSlot → Nat → GapRule, ∀ γ d, w.Admits before γ d →
    w.Admits after (fun a => regap (σ a) (γ a)) (step d)

/-- An edit of a slot that is steady there. -/
def SteadyAt (w : SpacingFrame) (a : TextSlot) (g : List Char → List Char) : Prop :=
  Steady (w.frozen a) (w.gaps a) (w.skeleton a) g

variable {w : SpacingFrame} {before after pending : List NodeId} {step step' : Draft → Draft}

theorem inked (w : SpacingFrame) (a : TextSlot) : Inked (w.skeleton a) := Text.inked_squeeze _

theorem spread_gaps (w : SpacingFrame) (a : TextSlot) :
    spread (w.skeleton a) (w.gaps a) = w.content a :=
  Text.spread_gapsOf _

namespace Acts

theorem id (w : SpacingFrame) (pending : List NodeId) : w.Acts pending pending fun d => d :=
  ⟨fun _ _ => .keep, fun _ _ h => h⟩

theorem comp {last : List NodeId} (h : w.Acts before after step) (h' : w.Acts after last step') :
    w.Acts before last fun d => step' (step d) := by
  obtain ⟨σ, hσ⟩ := h
  obtain ⟨σ', hσ'⟩ := h'
  refine ⟨fun a k => (σ' a k).comp (σ a k), fun γ d hd => ?_⟩
  have hcomp : (fun a => regap (fun k => (σ' a k).comp (σ a k)) (γ a)) =
      fun a => regap (σ' a) (regap (σ a) (γ a)) :=
    funext fun a => funext fun k => GapRule.fit_comp _ _ _
  rw [hcomp]
  exact hσ' _ _ (hσ γ d hd)

/-- Steps that do the same to every draft of the frame. -/
theorem congr (h : ∀ γ d, w.Admits before γ d → step d = step' d)
    (hstep : w.Acts before after step') :
    w.Acts before after step := by
  obtain ⟨σ, hσ⟩ := hstep
  refine ⟨σ, fun γ d hd => ?_⟩
  rw [h γ d hd]
  exact hσ γ d hd

/-- A choice that is the same for every draft of the frame. -/
theorem ite {c : Draft → Bool} {b : Bool} (hc : ∀ γ d, w.Admits before γ d → c d = b)
    (h : b = true → w.Acts before after step) (h' : b = false → w.Acts before after step') :
    w.Acts before after fun d => if c d then step d else step' d := by
  cases b with
  | true => exact (h rfl).congr fun γ d hd => if_pos (hc γ d hd)
  | false =>
    refine (h' rfl).congr fun γ d hd => if_neg ?_
    rw [hc γ d hd]
    exact Bool.false_ne_true

/-- A step that is taken if the rules say so. -/
theorem when {b : Bool} (h : b = true → w.Acts pending pending step) :
    w.Acts pending pending fun d => if b then step d else d := by
  cases b with
  | true => exact h rfl
  | false => exact .id w pending

theorem foldl {α : Type} {step : Draft → α → Draft} {xs : List α}
    (h : ∀ x ∈ xs, w.Acts pending pending fun d => step d x) :
    w.Acts pending pending fun d => xs.foldl step d := by
  induction xs with
  | nil => exact .id w pending
  | cons x xs ih =>
    obtain ⟨hx, hxs⟩ := List.forall_mem_cons.mp h
    exact hx.comp (ih hxs)

/-- Acting again on what a step has left changes nothing. -/
theorem twice (h : w.Acts before after step) {γ : TextSlot → Nat → Nat} {d d' : Draft}
    (hd : w.Admits before γ d) (hd' : ∀ γ', w.Admits after γ' (step d) → w.Admits before γ' d')
    {a : TextSlot} (ha : a.id < w.forest.size) :
    settled after a ((step d').forest.slot a) = settled after a ((step d).forest.slot a) := by
  obtain ⟨σ, hσ⟩ := h
  have hfirst := hσ γ d hd
  have hsecond := hσ _ _ (hd' _ hfirst)
  rw [hsecond.slot_eq a ha, hfirst.slot_eq a ha]
  congr 1
  exact funext fun k => GapRule.fit_fit _ _

end Acts

/-! ## Edits of one slot -/

theorem acts_editSlot {a : TextSlot} {g : List Char → List Char}
    (hsettled : ∀ s, settled pending a s = s) (hg : a.id < w.forest.size → w.SteadyAt a g) :
    w.Acts pending pending fun d => d.editSlot a g := by
  by_cases hlt : a.id < w.forest.size
  · obtain ⟨σ, hσ⟩ := hg hlt
    refine ⟨Function.update (fun _ _ => .keep) a σ, fun γ d hd => ⟨?_, fun b hb => ?_, fun b => ?_⟩⟩
    · exact hd.shape.trans (d.sameShape_editSlot a g)
    · by_cases hba : b = a
      · subst hba
        have hslot := hd.slot_eq b hb
        rw [hsettled] at hslot
        rw [hsettled, Draft.slot_editSlot_self (hd.shape.size_eq ▸ hlt), hslot,
          Function.update_self]
        exact (hσ (γ b) (hd.alike b)).1
      · rw [Draft.slot_editSlot_of_ne hba, hd.slot_eq b hb, Function.update_of_ne hba,
          Text.regap_keep]
    · by_cases hba : b = a
      · subst hba
        rw [Function.update_self]
        exact (hσ (γ b) (hd.alike b)).2
      · rw [Function.update_of_ne hba]
        exact hd.alike b
  · -- Outside the store nothing changes.
    refine ⟨fun _ _ => .keep, fun γ d hd => ⟨?_, fun b hb => ?_, hd.alike⟩⟩
    · exact hd.shape.trans (d.sameShape_editSlot a g)
    · have hba : b ≠ a := by
        rintro rfl
        exact hlt hb
      rw [Draft.slot_editSlot_of_ne hba, hd.slot_eq b hb, Text.regap_keep]

/-- Expanding the tabs of a tail settles it. -/
theorem acts_expandTabs (i : NodeId) (htab : '\t' ∉ w.skeleton (.tail i)) :
    w.Acts pending (pending.filter (· ≠ i)) fun d => d.editTail i Text.expandTabs := by
  refine ⟨fun _ _ => .keep, fun γ d hd => ⟨?_, fun a ha => ?_, hd.alike⟩⟩
  · exact hd.shape.trans (d.sameShape_editSlot (.tail i) _)
  · have hslot := hd.slot_eq a ha
    dsimp only
    rw [Text.regap_keep]
    by_cases hai : a = .tail i
    · subst hai
      have hedit :=
        Draft.slot_editSlot_self (g := Text.expandTabs) (hd.shape.size_eq ▸ ha : _ < d.forest.size)
      rw [Draft.editSlot] at hedit
      rw [settled, if_neg (by simp), hedit]
      rw [settled] at hslot
      split at hslot
      · exact hslot
      · rw [hslot, Text.expandTabs_spread (w.inked _) htab]
    · have hedit := Draft.slot_editSlot_of_ne (d := d) (g := Text.expandTabs) hai
      rw [Draft.editSlot] at hedit
      rw [hedit]
      cases a with
      | text j => exact hslot
      | tail j =>
        have hj : j ≠ i := fun e => hai (congrArg TextSlot.tail e)
        simpa [settled, hj] using hslot

end SpacingFrame

end FortranLayout
