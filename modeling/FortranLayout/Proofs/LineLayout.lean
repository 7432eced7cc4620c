import FortranLayout.Continuation.Alignment
import FortranLayout.Continuation.Markers
import FortranLayout.EmptyLines
import FortranLayout.Indentation
import FortranLayout.Proofs.SpacingLayout

/-!
# The passes over line starts change layout only

Indentation and the alignment of continued lines rewrite what follows the newlines of tails; they
keep all texts, and the tails up to blanks and tabs. Removing blank lines also drops newlines. None
of the three changes the shape of the tree.
-/

namespace FortranLayout

open Forest (Relaid)

/-! ## Indentation -/

namespace IndentParams

theorem filter_isInk_atLevel (level : Nat) (s : List Char) :
    (atLevel level s).filter Text.isInk = s.filter Text.isInk := by
  rw [atLevel, (Text.onlyBlanks_everywhere _).filter_isInk, Text.filter_isInk_expandTabs]

/-- An indented draft has the nodes of the draft before, up to blanks and tabs in tails. -/
def Indented (d d' : Draft) : Prop := Relaid (fun _ => true) Text.isInk d.forest d'.forest

variable (p : IndentParams)

theorem indented_setLevel (d : Draft) (i level : Nat) (next : Option NodeId) :
    Indented d (p.setLevel d i level next) := by
  refine Draft.relaid_editTail (fun s => ?_) d i
  split
  · exact Text.filter_isInk_expandTabs s
  · exact filter_isInk_atLevel level s

theorem indented_setLevelAfterLast (d : Draft) (i : Option NodeId) (level next : Nat) :
    Indented d (p.setLevelAfterLast d i level next) := by
  rw [setLevelAfterLast]
  split
  · exact p.indented_setLevel d _ level (some next)
  · exact .refl _ _ _

theorem indented_closeAt (d : Draft) (inside previous : Option NodeId) (level child : Nat) :
    Indented d (p.closeAt d inside previous level child) := by
  rw [closeAt.eq_def]
  split
  · split
    · exact p.indented_setLevel d _ level (some child)
    · exact .refl _ _ _
  · exact .refl _ _ _

theorem indented_closeArm (d : Draft) (level arm : Nat) : Indented d (p.closeArm d level arm) := by
  rw [closeArm]
  split
  · exact p.indented_setLevel d _ level _
  · exact .refl _ _ _

theorem indented_indentFrom {cs : List Shape}
    (ih : ∀ s ∈ cs, ∀ level inside d, Indented d (p.indentBelow level inside s d))
    (level : Nat) (inside : Option NodeId) (inSelect : Bool) (current : Nat)
    (previous : Option NodeId) (d : Draft) :
    Indented d (p.indentFrom level inside inSelect current previous cs d) := by
  induction cs generalizing current previous d with
  | nil => rw [indentFrom]; exact .refl _ _ _
  | cons s rest ihrest =>
    have ihs := ih s List.mem_cons_self
    rw [indentFrom]
    dsimp only
    refine Relaid.trans ?_ (ihrest (fun t ht => ih t (List.mem_cons_of_mem _ ht)) _ _ _)
    have hlevel := p.indented_setLevel d s.id (p.levelAfter d.forest inside current s.id)
      (rest.head?.map Shape.id)
    refine Relaid.trans (hlevel.trans ?_) (p.indented_closeAt _ inside previous level s.id)
    generalize p.setLevel d s.id (p.levelAfter d.forest inside current s.id)
      (rest.head?.map Shape.id) = d'
    -- An arm of a SELECT CASE, another container, or a plain statement.
    split
    · exact ((p.indented_setLevelAfterLast d' previous _ s.id).trans (ihs _ none _)).trans
        (p.indented_closeArm _ level s.id)
    · split
      · refine Relaid.trans ?_ (ihs _ _ _)
        split
        · exact p.indented_setLevelAfterLast d' previous level s.id
        · exact .refl _ _ _
      · exact .refl _ _ _

theorem indented_indentBelow (s : Shape) (level : Nat) (inside : Option NodeId) (d : Draft) :
    Indented d (p.indentBelow level inside s d) := by
  induction s using Shape.induct generalizing level inside d with
  | h i cs ih =>
    rw [indentBelow]
    exact p.indented_indentFrom ih level inside _ level none d

end IndentParams

theorem relaid_indentTree (p : IndentParams) (f : Forest) :
    Relaid (fun _ => true) Text.isInk f (indentTree p f).forest :=
  p.indented_indentBelow (f.shape Forest.root) 0 none { forest := f }

/-! ## Alignment -/

namespace Alignment

/-- Aligned lines are those of before, up to blanks in tails. -/
def Realigned (a a' : Alignment) : Prop :=
  Relaid (fun _ => true) (fun c => !Text.isBlank c) a.forest a'.forest

theorem realigned_alignTail (a : Alignment) (i column : Nat) :
    Realigned a (a.alignTail i column) := by
  rw [alignTail]
  split
  · exact .refl _ _ _
  · refine Relaid.setTail _ _ ?_
    rw [String.toList_ofList]
    exact Text.onlyBlanks_everywhere _ _

theorem realigned_alignAfter (a : Alignment) (parent i : Nat) (next : Option Kind)
    (afterComment : Bool) : Realigned a (a.alignAfter parent i next afterComment) := by
  have hcolumn : (if a.isEndMarker i next then a.findColumn parent next else a).forest =
      a.forest := by
    split
    · rw [findColumn]
      split <;> rfl
    · rfl
  unfold alignAfter
  dsimp only
  generalize (if a.isEndMarker i next then a.findColumn parent next else a) = b at hcolumn ⊢
  rw [Realigned, ← hcolumn]
  split
  · split
    · exact .refl _ _ _
    · exact realigned_alignTail b i _
  · rw [hcolumn]
    exact .refl _ _ _

theorem forest_readText (a : Alignment) (i : Nat) : (a.readText i).forest = a.forest := by
  rw [readText]
  split <;> rfl

theorem forest_readTail (a : Alignment) (i : Nat) : (a.readTail i).forest = a.forest := by
  rw [readTail]
  split
  · rfl
  · split <;> rfl

theorem realigned_alignFrom {cs : List Shape}
    (ih : ∀ s ∈ cs, ∀ a, Realigned a (alignBelow s a)) (parent : Nat) (afterComment : Bool)
    (a : Alignment) : Realigned a (alignFrom parent afterComment cs a) := by
  induction cs generalizing afterComment a with
  | nil => rw [alignFrom]; exact .refl _ _ _
  | cons s rest ihrest =>
    rw [alignFrom]
    refine Relaid.trans ?_ (ihrest (fun t ht => ih t (List.mem_cons_of_mem _ ht)) _ _)
    rw [forest_readTail]
    refine Relaid.trans ?_ (ih s List.mem_cons_self _)
    rw [forest_readText]
    exact realigned_alignAfter a parent s.id _ _

theorem realigned_alignBelow (s : Shape) (a : Alignment) : Realigned a (alignBelow s a) := by
  induction s using Shape.induct generalizing a with
  | h i cs ih =>
    rw [alignBelow]
    exact realigned_alignFrom ih i false a

end Alignment

/-! ## Blank lines -/

namespace EmptyLines

theorem filter_isCode_blanks (n : Nat) : (Text.blanks n).filter isCode = [] := by
  induction n with
  | zero => rfl
  | succ n ih => rw [Text.blanks, List.replicate_succ, ← Text.blanks]; exact ih

theorem filter_isCode_collapseFrom (pending : Option Nat) (s : List Char) :
    (collapseFrom pending s).filter isCode = s.filter isCode := by
  induction s generalizing pending with
  | nil =>
    cases pending with
    | none => rfl
    | some n => exact filter_isCode_blanks n
  | cons c s ih =>
    cases pending with
    | none => rw [collapseFrom, List.filter_cons, List.filter_cons, ih]
    | some n =>
      rw [collapseFrom]
      split
      · subst c
        exact ih _
      · split
        · subst c
          exact ih _
        · rw [List.filter_append, filter_isCode_blanks, List.nil_append, List.filter_cons,
            List.filter_cons, ih]

theorem filter_isCode_tidyTail (s : List Char) :
    (tidyTail s).filter isCode = s.filter isCode := by
  rw [tidyTail]
  split
  · rw [collapse, filter_isCode_collapseFrom]
    refine Relaid.filter_mono (fun c hc => ?_) (Text.filter_isInk_expandTabs s)
    simp only [isCode, Text.isInk, Text.isBlank, Bool.and_eq_true, bne_iff_ne, ne_eq,
      Bool.not_eq_true', beq_eq_false_iff_ne] at hc ⊢
    exact ⟨hc.1.1, hc.2⟩
  · rfl

theorem filter_isCode_filter_newline (s : List Char) :
    (s.filter (· != '\n')).filter isCode = s.filter isCode := by
  rw [List.filter_filter]
  refine List.filter_congr fun c _ => ?_
  by_cases hc : c = '\n'
  · subst hc
    rfl
  · simp [hc]

end EmptyLines

theorem relaid_removeEmptyLines (f : Forest) :
    Relaid isCode isCode f (removeEmptyLines f).forest := by
  rw [removeEmptyLines]
  refine Relaid.trans ?_ (Draft.relaid_foldl
    (fun d i => Draft.relaid_editTail EmptyLines.filter_isCode_tidyTail d i) _ _)
  split
  · exact Draft.relaid_editText EmptyLines.filter_isCode_filter_newline { forest := f } _
  · exact .refl _ _ _

end FortranLayout
