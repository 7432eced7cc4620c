import FortranLayout.EmptyLines
import FortranLayout.Proofs.Forest.Ordered
import FortranLayout.Proofs.Indentation.DirectiveLines
import Mathlib.Data.List.Infix

/-!
# Where blank lines are left

Blank lines are removed tail by tail, and within a tail none is left
(`EmptyLines.not_hasBlankLine_tidyTail`). But where constructs end together, a line break of the
source is made of several tails. A tail keeps its first line break, and what is on its first and its
last line; so a blank line is left in the source exactly where two tails meet in one
(`hasBlankLine_removeEmptyLines_iff`).
-/

namespace FortranLayout

open Text (isInk hasNewline blanks expandTabs)

/-! ## Blank lines -/

namespace Text

/-- Nothing but blanks and tabs. -/
def isVoid (s : List Char) : Bool := s.all (!isInk ·)

/-- The first line has nothing but blanks and tabs, and ends within the text. -/
def breaksAtOnce : List Char → Bool
  | [] => false
  | c :: s => c == '\n' || (!isInk c && breaksAtOnce s)

/-- The last line is not the first one, and has nothing but blanks and tabs. -/
def endsVoid : List Char → Bool
  | [] => false
  | c :: s => (c == '\n' && isVoid s) || endsVoid s

/-- Two newlines with nothing but blanks and tabs between them. -/
def HasBlankLine (s : List Char) : Prop :=
  ∃ u v w, s = u ++ '\n' :: (v ++ '\n' :: w) ∧ isVoid v = true

variable {c : Char} {s t : List Char}

theorem isVoid_append : isVoid (s ++ t) = (isVoid s && isVoid t) := List.all_append

theorem isVoid_blanks (n : Nat) : isVoid (blanks n) = true :=
  List.all_eq_true.mpr fun c hc => by
    rw [List.eq_of_mem_replicate hc]
    rfl

theorem breaksAtOnce_iff : breaksAtOnce s = true ↔ ∃ v w, s = v ++ '\n' :: w ∧ isVoid v = true := by
  induction s with
  | nil => simp [breaksAtOnce]
  | cons c s ih =>
    rw [breaksAtOnce, Bool.or_eq_true, Bool.and_eq_true, ih, beq_iff_eq]
    constructor
    · rintro (rfl | ⟨hc, v, w, rfl, hv⟩)
      · exact ⟨[], s, rfl, rfl⟩
      · exact ⟨c :: v, w, rfl, by rw [isVoid, List.all_cons, hc]; exact hv⟩
    · rintro ⟨v, w, h, hv⟩
      cases v with
      | nil => exact Or.inl (List.cons.inj h).1
      | cons d v =>
        obtain ⟨rfl, rfl⟩ := List.cons.inj h
        rw [isVoid, List.all_cons, Bool.and_eq_true] at hv
        exact Or.inr ⟨hv.1, v, w, rfl, hv.2⟩

theorem not_hasBlankLine_nil : ¬ HasBlankLine [] := by
  rintro ⟨u, v, w, h, _⟩
  simp at h

theorem hasBlankLine_cons :
    HasBlankLine (c :: s) ↔ c = '\n' ∧ breaksAtOnce s = true ∨ HasBlankLine s := by
  rw [breaksAtOnce_iff]
  constructor
  · rintro ⟨u, v, w, h, hv⟩
    cases u with
    | nil =>
      obtain ⟨rfl, rfl⟩ := List.cons.inj h
      exact Or.inl ⟨rfl, v, w, rfl, hv⟩
    | cons d u => exact Or.inr ⟨u, v, w, (List.cons.inj h).2, hv⟩
  · rintro (⟨rfl, v, w, rfl, hv⟩ | ⟨u, v, w, rfl, hv⟩)
    · exact ⟨[], v, w, rfl, hv⟩
    · exact ⟨c :: u, v, w, rfl, hv⟩

theorem isVoid_cons : isVoid (c :: s) = (!isInk c && isVoid s) := List.all_cons

theorem breaksAtOnce_append :
    breaksAtOnce (s ++ t) = (breaksAtOnce s || isVoid s && breaksAtOnce t) := by
  induction s with
  | nil => rfl
  | cons c s ih =>
    rw [List.cons_append, breaksAtOnce, ih, breaksAtOnce, isVoid_cons]
    by_cases hc : c = '\n'
    · subst hc
      rfl
    · rw [beq_eq_false_iff_ne.mpr hc, Bool.false_or, Bool.false_or, Bool.and_or_distrib_left,
        Bool.and_assoc]

theorem endsVoid_append : endsVoid (s ++ t) = (endsVoid s && isVoid t || endsVoid t) := by
  induction s with
  | nil => rfl
  | cons c s ih =>
    rw [List.cons_append, endsVoid, ih, endsVoid, isVoid_append, Bool.and_or_distrib_right,
      Bool.and_assoc, Bool.or_assoc]

/-- A blank line is in one of two texts, or begins in the one and ends in the other. -/
theorem hasBlankLine_append :
    HasBlankLine (s ++ t) ↔
      HasBlankLine s ∨ HasBlankLine t ∨ endsVoid s = true ∧ breaksAtOnce t = true := by
  induction s with
  | nil => simp [not_hasBlankLine_nil, endsVoid]
  | cons c s ih =>
    rw [List.cons_append, hasBlankLine_cons, ih, breaksAtOnce_append, hasBlankLine_cons, endsVoid]
    simp only [Bool.or_eq_true, Bool.and_eq_true, beq_iff_eq]
    tauto

theorem endsVoid_of_not_hasNewline (h : hasNewline s = false) : endsVoid s = false := by
  induction s with
  | nil => rfl
  | cons c s ih =>
    rw [hasNewline_cons, Bool.or_eq_false_iff] at h
    rw [endsVoid, h.1, ih h.2]
    rfl

theorem breaksAtOnce_of_not_hasNewline (h : hasNewline s = false) : breaksAtOnce s = false := by
  induction s with
  | nil => rfl
  | cons c s ih =>
    rw [hasNewline_cons, Bool.or_eq_false_iff] at h
    rw [breaksAtOnce, h.1, ih h.2, Bool.and_false]
    rfl

theorem not_hasBlankLine_of_not_hasNewline (h : hasNewline s = false) : ¬ HasBlankLine s := by
  rintro ⟨u, v, w, rfl, _⟩
  simp [hasNewline] at h

theorem hasNewline_blanks (n : Nat) : hasNewline (blanks n) = false := by
  simp [hasNewline, blanks]

variable {α : Type} {u u' : α → List Char} {as : List α}

/-- A blank line of several texts is in one of them, or begins in one and ends in a later one. -/
theorem hasBlankLine_flatMap (u : α → List Char) (as : List α) :
    HasBlankLine (as.flatMap u) ↔
      (∃ a ∈ as, HasBlankLine (u a)) ∨
        ∃ a rest,
          a :: rest ∈ as.tails ∧ endsVoid (u a) = true ∧ breaksAtOnce (rest.flatMap u) = true := by
  induction as with
  | nil => simp [not_hasBlankLine_nil]
  | cons a as ih =>
    have htails : (∃ b rest, b :: rest ∈ (a :: as).tails ∧ endsVoid (u b) = true ∧
          breaksAtOnce (rest.flatMap u) = true) ↔
        endsVoid (u a) = true ∧ breaksAtOnce (as.flatMap u) = true ∨
          ∃ b rest,
            b :: rest ∈ as.tails ∧ endsVoid (u b) = true ∧
            breaksAtOnce (rest.flatMap u) = true := by
      simp only [List.tails_cons, List.mem_cons, List.cons.injEq]
      constructor
      · rintro ⟨b, rest, ⟨rfl, rfl⟩ | hmem, h⟩
        · exact Or.inl h
        · exact Or.inr ⟨b, rest, hmem, h⟩
      · rintro (h | ⟨b, rest, hmem, h⟩)
        · exact ⟨a, as, Or.inl ⟨rfl, rfl⟩, h⟩
        · exact ⟨b, rest, Or.inr hmem, h⟩
    rw [List.flatMap_cons, hasBlankLine_append, ih, htails, List.exists_mem_cons_iff,
      or_assoc, or_assoc, or_comm (a := endsVoid (u a) = true ∧ _)]

/-- Where the first line break comes depends on the first lines only. -/
theorem breaksAtOnce_flatMap_congr (hvoid : ∀ a ∈ as, isVoid (u a) = isVoid (u' a))
    (hbreaks : ∀ a ∈ as, breaksAtOnce (u a) = breaksAtOnce (u' a)) :
    breaksAtOnce (as.flatMap u) = breaksAtOnce (as.flatMap u') := by
  induction as with
  | nil => rfl
  | cons a as ih =>
    obtain ⟨hvoid, hvoids⟩ := List.forall_mem_cons.mp hvoid
    obtain ⟨hbreaks, hbreakss⟩ := List.forall_mem_cons.mp hbreaks
    rw [List.flatMap_cons, List.flatMap_cons, breaksAtOnce_append, breaksAtOnce_append,
      hvoid, hbreaks, ih hvoids hbreakss]

/-! ## Tabs -/

theorem isVoid_expandTabs (s : List Char) : isVoid (expandTabs s) = isVoid s := by
  induction s with
  | nil => rfl
  | cons c s ih =>
    rw [expandTabs_cons, isVoid_append, ih]
    split
    · rename_i hc
      subst hc
      rfl
    · rw [isVoid, isVoid, isVoid, List.all_cons, List.all_cons, List.all_nil, Bool.and_true]

theorem breaksAtOnce_expandTabs (s : List Char) : breaksAtOnce (expandTabs s) = breaksAtOnce s := by
  induction s with
  | nil => rfl
  | cons c s ih =>
    rw [expandTabs_cons, breaksAtOnce_append, ih]
    split
    · rename_i hc
      subst hc
      rfl
    · simp [breaksAtOnce, isVoid]

theorem endsVoid_expandTabs (s : List Char) : endsVoid (expandTabs s) = endsVoid s := by
  induction s with
  | nil => rfl
  | cons c s ih =>
    rw [expandTabs_cons]
    split
    · rename_i hc
      subst hc
      exact ih
    · rw [List.singleton_append, endsVoid, endsVoid, ih, isVoid_expandTabs]

end Text

open Text (isVoid breaksAtOnce endsVoid HasBlankLine)

/-! ## One tail -/

namespace EmptyLines

variable {c : Char} {s : List Char} {n : Nat}

/-- What ends a run of newlines and blanks. -/
theorem isInk_of_ne (hblank : c ≠ ' ') (htab : c ≠ '\t') : isInk c = true := by
  simp [isInk, Text.isBlank, hblank, htab]

/-- There is no blank line left, and behind a newline no other line break. -/
theorem not_hasBlankLine_collapseFrom (htab : '\t' ∉ s) (pending : Option Nat) :
    ¬ HasBlankLine (collapseFrom pending s) ∧
      (pending.isSome = true → breaksAtOnce (collapseFrom pending s) = false) := by
  induction s generalizing pending with
  | nil =>
    cases pending with
    | none => exact ⟨Text.not_hasBlankLine_nil, fun h => by cases h⟩
    | some n =>
      exact ⟨Text.not_hasBlankLine_of_not_hasNewline (Text.hasNewline_blanks n), fun _ =>
        Text.breaksAtOnce_of_not_hasNewline (Text.hasNewline_blanks n)⟩
  | cons c s ih =>
    rw [List.mem_cons, not_or] at htab
    replace ih := ih htab.2
    cases pending with
    | none =>
      rw [collapseFrom]
      refine ⟨?_, fun h => by cases h⟩
      rw [Text.hasBlankLine_cons]
      rintro (⟨rfl, h⟩ | h)
      · rw [if_pos rfl, (ih (some 0)).2 rfl] at h
        cases h
      · exact (ih _).1 h
    | some n =>
      rw [collapseFrom]
      split
      · exact ih (some 0)
      · rename_i hc
        split
        · exact ih (some (n + 1))
        · rename_i hblank
          have hbreaks : breaksAtOnce (c :: collapseFrom none s) = false := by
            rw [breaksAtOnce, beq_eq_false_iff_ne.mpr hc, isInk_of_ne hblank (Ne.symm htab.1)]
            rfl
          constructor
          · rw [Text.hasBlankLine_append, hbreaks, Text.hasBlankLine_cons]
            rintro (h | (⟨h, _⟩ | h) | ⟨_, h⟩)
            · exact Text.not_hasBlankLine_of_not_hasNewline (Text.hasNewline_blanks n) h
            · exact hc h
            · exact (ih none).1 h
            · cases h
          · intro _
            rw [Text.breaksAtOnce_append, hbreaks, Bool.and_false, Bool.or_false]
            exact Text.breaksAtOnce_of_not_hasNewline (Text.hasNewline_blanks n)

theorem isVoid_collapse (s : List Char) : isVoid (collapse s) = isVoid s := by
  rw [collapse]
  induction s with
  | nil => rfl
  | cons c s ih =>
    rw [collapseFrom, Text.isVoid_cons, Text.isVoid_cons]
    by_cases hc : c = '\n'
    · subst hc
      rfl
    · rw [if_neg hc, ih]

theorem breaksAtOnce_collapse (s : List Char) : breaksAtOnce (collapse s) = breaksAtOnce s := by
  rw [collapse]
  induction s with
  | nil => rfl
  | cons c s ih =>
    rw [collapseFrom, breaksAtOnce, breaksAtOnce]
    by_cases hc : c = '\n'
    · subst hc
      rfl
    · rw [if_neg hc, ih]

/-- The last line keeps its blanks; a pending newline is the one before them. -/
theorem endsVoid_collapseFrom (htab : '\t' ∉ s) :
    endsVoid (collapseFrom none s) = endsVoid s ∧
      ∀ n, endsVoid ('\n' :: collapseFrom (some n) s) = endsVoid ('\n' :: s) := by
  induction s with
  | nil =>
    refine ⟨rfl, fun n => ?_⟩
    rw [collapseFrom, Option.elim_some, endsVoid, Text.isVoid_blanks]
    rfl
  | cons c s ih =>
    rw [List.mem_cons, not_or] at htab
    obtain ⟨hnone, hsome⟩ := ih htab.2
    refine ⟨?_, fun n => ?_⟩
    · rw [collapseFrom]
      by_cases hc : c = '\n'
      · rw [if_pos hc, hc]
        exact hsome 0
      · rw [if_neg hc, endsVoid, endsVoid, hnone, beq_eq_false_iff_ne.mpr hc, Bool.false_and,
          Bool.false_and]
    · rw [collapseFrom]
      split
      · rename_i hc
        rw [hsome 0, hc]
        rfl
      · split
        · rename_i hblank
          rw [hsome (n + 1), hblank]
          rfl
        · rename_i hc hblank
          have hink := isInk_of_ne hblank (Ne.symm htab.1)
          have hleft (t : List Char) : isVoid (c :: t) = false := by
            rw [Text.isVoid_cons, hink]
            rfl
          rw [endsVoid, Text.isVoid_append, hleft, Text.endsVoid_append, hleft,
            endsVoid, hnone, endsVoid, hleft, endsVoid, beq_eq_false_iff_ne.mpr hc]
          simp

variable (s)

theorem not_hasBlankLine_tidyTail : ¬ HasBlankLine (tidyTail s) := by
  rw [tidyTail]
  cases hs : hasNewline s with
  | true => exact (not_hasBlankLine_collapseFrom (Text.tab_not_mem_expandTabs s) none).1
  | false => exact Text.not_hasBlankLine_of_not_hasNewline hs

theorem isVoid_tidyTail : isVoid (tidyTail s) = isVoid s := by
  rw [tidyTail]
  split
  · rw [isVoid_collapse, Text.isVoid_expandTabs]
  · rfl

theorem breaksAtOnce_tidyTail : breaksAtOnce (tidyTail s) = breaksAtOnce s := by
  rw [tidyTail]
  split
  · rw [breaksAtOnce_collapse, Text.breaksAtOnce_expandTabs]
  · rfl

theorem endsVoid_tidyTail : endsVoid (tidyTail s) = endsVoid s := by
  rw [tidyTail]
  split
  · rw [collapse, (endsVoid_collapseFrom (Text.tab_not_mem_expandTabs s)).1,
      Text.endsVoid_expandTabs]
  · rfl

end EmptyLines

/-! ## All tails -/

namespace Draft

variable {order : List NodeId} {i : NodeId}

/-- An edit of the tails of nodes of which none comes twice. -/
theorem slot_foldl_editTail (hnodup : order.Nodup) (d : Draft)
    (horder : ∀ i ∈ order, i < d.forest.size) (g : List Char → List Char) :
    d.forest.SameShape (order.foldl (fun d i => d.editTail i g) d).forest ∧
      ∀ a, (order.foldl (fun d i => d.editTail i g) d).forest.slot a =
        if a ∈ order.map TextSlot.tail then g (d.forest.slot a) else d.forest.slot a := by
  induction order generalizing d with
  | nil => exact ⟨.refl _, fun _ => rfl⟩
  | cons j order ih =>
    obtain ⟨hj, hnodup⟩ := List.nodup_cons.mp hnodup
    obtain ⟨hlt, horder⟩ := List.forall_mem_cons.mp horder
    have hfirst : d.forest.SameShape (d.editTail j g).forest := d.sameShape_editSlot (.tail j) g
    obtain ⟨hshape, hslot⟩ := ih hnodup (d.editTail j g) fun i hi => hfirst.size_eq ▸ horder i hi
    rw [List.foldl_cons]
    refine ⟨hfirst.trans hshape, fun a => ?_⟩
    rw [hslot, List.map_cons]
    by_cases ha : a = .tail j
    · have hself : (d.editTail j g).forest.slot (.tail j) = g (d.forest.slot (.tail j)) :=
        slot_editSlot_self (a := .tail j) hlt
      rw [ha, if_neg (by simpa using hj), if_pos List.mem_cons_self, hself]
    · have hother : (d.editTail j g).forest.slot a = d.forest.slot a :=
        slot_editSlot_of_ne (a := .tail j) ha
      simp only [hother, List.mem_cons, ha, false_or]

end Draft

/-! ## The tree -/

namespace Shape

theorem slotsAll_eq (cs : List Shape) : slotsAll cs = cs.flatMap slots := by
  induction cs with
  | nil => rfl
  | cons c cs ih => rw [slotsAll, ih, List.flatMap_cons]

theorem mem_slots {s : Shape} {a : TextSlot} : a ∈ s.slots ↔ a.id ∈ s.preorder := by
  induction s using Shape.induct with
  | h i cs ih =>
    have hcs : a ∈ slotsAll cs ↔ a.id ∈ cs.flatMap preorder := by
      rw [slotsAll_eq, List.mem_flatMap, List.mem_flatMap]
      exact exists_congr fun c => and_congr_right fun hc => ih c hc
    rw [slots, List.mem_cons, List.mem_append, hcs, List.mem_singleton,
      preorder_node, List.mem_cons]
    cases a with
    | text j => simp [TextSlot.id]
    | tail j => simp [TextSlot.id, or_comm]

/-- The text of the top node is the first slot, and comes only once. -/
theorem text_not_mem_of_suffix {s : Shape} (hs : s.preorder.Nodup) {i : NodeId}
    {rest : List TextSlot} (h : .tail i :: rest <:+ s.slots) : .text s.id ∉ rest := by
  obtain ⟨j, cs⟩ := s
  rw [preorder_node, List.nodup_cons] at hs
  have hbelow : .text j ∉ slotsAll cs ++ [.tail j] := by
    intro hmem
    have hchild : .text j ∈ slotsAll cs := by simpa using hmem
    rw [slotsAll_eq, List.mem_flatMap] at hchild
    obtain ⟨c, hc, hj⟩ := hchild
    exact hs.1 (List.mem_flatMap.mpr ⟨c, hc, mem_slots.mp hj⟩)
  rw [slots, List.suffix_cons_iff] at h
  rcases h with h | h
  · cases h
  · exact fun hmem => hbelow (h.subset (List.mem_cons_of_mem _ hmem))

end Shape

namespace Forest

/-- The first slot is a tail whose last line is blank, and what comes behind it breaks the line
again. -/
def breaksAgain (f : Forest) : List TextSlot → Bool
  | .tail i :: rest => endsVoid (f.slot (.tail i)) && breaksAtOnce (rest.flatMap f.slot)
  | _ => false

/-- Somewhere in the source a tail ends its line, and a later one ends the same blank line again. -/
def TailsMeet (f : Forest) : Prop := ∃ t ∈ (f.shape root).slots.tails, f.breaksAgain t = true

instance (f : Forest) : Decidable f.TailsMeet :=
  inferInstanceAs (Decidable (∃ t ∈ (f.shape root).slots.tails, f.breaksAgain t = true))

/-- `g` is `f` with its tails tidied, and without newlines in the text of the root. -/
structure Tidied (f g : Forest) : Prop where
  shape_eq : g.shape root = f.shape root
  text_root : hasNewline (g.slot (.text root)) = false
  text_eq : ∀ i ∈ f.preorder, i ≠ root → g.slot (.text i) = f.slot (.text i)
  tail_eq : ∀ i ∈ f.preorder, g.slot (.tail i) = EmptyLines.tidyTail (f.slot (.tail i))

theorem SameShape.shape_eq {f g : Forest} (h : f.SameShape g) (i : NodeId) :
    g.shape i = f.shape i := by
  rw [shape, shape, h.size_eq, shapeWithin_congr h.children_eq]

theorem tidied_removeEmptyLines (e : Element) (hfile : e.kind = .file) :
    (ofElement e).Tidied (removeEmptyLines (ofElement e)).forest := by
  have hordered := ordered_ofElement e
  have hlt : root < (ofElement e).size := by
    have hid := (holds_ofElement e).carries.id_lt
    rwa [Element.id_shapeFrom] at hid
  have hkind : (ofElement e).kind root = .file := by
    have hkind := kind_elementOf (ofElement e) (e.shapeFrom 0)
    rw [elementOf_ofElement, Element.id_shapeFrom] at hkind
    exact hkind.symm.trans hfile
  have hfound : EmptyLines.file? (ofElement e) = some root := by
    rw [EmptyLines.file?, hkind]
    rfl
  rw [removeEmptyLines, hfound]
  dsimp only
  generalize hd : Draft.editText { forest := ofElement e } root (List.filter (· != '\n')) = d
  have htext : (ofElement e).SameShape d.forest :=
    hd ▸ Draft.sameShape_editSlot { forest := ofElement e } (.text root) _
  have hroot :
      d.forest.slot (.text root) = ((ofElement e).slot (.text root)).filter (· != '\n') := by
    rw [← hd]
    exact Draft.slot_editSlot_self (a := .text root) hlt
  have hother {a : TextSlot} (ha : a ≠ .text root) : d.forest.slot a = (ofElement e).slot a := by
    rw [← hd]
    exact Draft.slot_editSlot_of_ne (a := .text root) ha
  obtain ⟨hshape, hslot⟩ := Draft.slot_foldl_editTail hordered.nodup_preorder d
    (fun i hi => htext.size_eq ▸ (hordered.mem_preorder i).mp hi) EmptyLines.tidyTail
  refine ⟨(htext.trans hshape).shape_eq root, ?_, fun i _ hi => ?_, fun i hi => ?_⟩
  · rw [hslot, if_neg (by simp), hroot]
    simp [hasNewline]
  · rw [hslot, if_neg (by simp), hother (by simpa using hi)]
  · have hmem : TextSlot.tail i ∈ (ofElement e).preorder.map TextSlot.tail := List.mem_map_of_mem hi
    rw [hslot, if_pos hmem, hother (by simp)]

variable {f g : Forest} {i : NodeId} {rest : List TextSlot}

/-- Behind a tail all slots begin as before: the text of the root is not among them. -/
theorem Tidied.breaksAtOnce_eq (h : f.Tidied g) (hid : (f.shape root).id = root)
    (hnodup : f.preorder.Nodup) (hrest : .tail i :: rest <:+ (f.shape root).slots) :
    breaksAtOnce (rest.flatMap g.slot) = breaksAtOnce (rest.flatMap f.slot) := by
  have hroot := hid ▸ Shape.text_not_mem_of_suffix hnodup hrest
  have hkeeps : ∀ a ∈ rest, isVoid (g.slot a) = isVoid (f.slot a) ∧
      breaksAtOnce (g.slot a) = breaksAtOnce (f.slot a) := by
    intro a ha
    have hmem : a.id ∈ f.preorder := Shape.mem_slots.mp (hrest.subset (List.mem_cons_of_mem _ ha))
    cases a with
    | text j =>
      rw [h.text_eq j hmem fun hj => hroot (hj ▸ ha)]
      exact ⟨rfl, rfl⟩
    | tail j =>
      rw [h.tail_eq j hmem]
      exact ⟨EmptyLines.isVoid_tidyTail _, EmptyLines.breaksAtOnce_tidyTail _⟩
  exact Text.breaksAtOnce_flatMap_congr (fun a ha => (hkeeps a ha).1) fun a ha => (hkeeps a ha).2

theorem Tidied.hasNewline_text (h : f.Tidied g)
    (htext : ∀ i ∈ f.preorder, i ≠ root → hasNewline (f.text i).toList = false)
    (hi : i ∈ f.preorder) :
    hasNewline (g.slot (.text i)) = false := by
  by_cases hroot : i = root
  · rw [hroot]
    exact h.text_root
  · rw [h.text_eq i hi hroot]
    exact htext i hi hroot

/-- A tail that meets another one did so before. -/
theorem Tidied.breaksAgain_eq (h : f.Tidied g) (hid : (f.shape root).id = root)
    (hnodup : f.preorder.Nodup) (hrest : .tail i :: rest <:+ (f.shape root).slots) :
    g.breaksAgain (.tail i :: rest) = f.breaksAgain (.tail i :: rest) := by
  have hi : i ∈ f.preorder := Shape.mem_slots.mp (hrest.subset List.mem_cons_self)
  rw [breaksAgain, breaksAgain, h.tail_eq i hi, EmptyLines.endsVoid_tidyTail,
    h.breaksAtOnce_eq hid hnodup hrest]

end Forest

open Forest

/-- A blank line is left exactly where two tails meet in one: each tail is tidied by itself, and
keeps what it has on its first and its last line. -/
theorem hasBlankLine_removeEmptyLines_iff (e : Element) (hfile : e.kind = .file)
    (htext : ∀ i ∈ (ofElement e).preorder, i ≠ root →
      hasNewline ((ofElement e).text i).toList = false) :
    HasBlankLine (removeEmptyLines (ofElement e)).forest.source.toList ↔
      (ofElement e).TailsMeet := by
  have htidied := tidied_removeEmptyLines e hfile
  have hnodup := (ordered_ofElement e).nodup_preorder
  have hid : ((ofElement e).shape root).id = root := by
    rw [shape_ofElement, Element.id_shapeFrom]
    rfl
  generalize (removeEmptyLines (ofElement e)).forest = g at htidied
  rw [source, sourceOf, element, source_elementOf, htidied.shape_eq, Text.hasBlankLine_flatMap]
  constructor
  · rintro (⟨a, ha, hblank⟩ | ⟨a, rest, hmem, hend, hbreak⟩)
    · -- No slot has a blank line of its own.
      have hi : a.id ∈ (ofElement e).preorder := Shape.mem_slots.mp ha
      cases a with
      | text i =>
        exact absurd hblank
          (Text.not_hasBlankLine_of_not_hasNewline (htidied.hasNewline_text htext hi))
      | tail i =>
        rw [htidied.tail_eq i hi] at hblank
        exact absurd hblank (EmptyLines.not_hasBlankLine_tidyTail _)
    · have hsuffix := (List.mem_tails _ _).mp hmem
      have hi : a.id ∈ (ofElement e).preorder :=
        Shape.mem_slots.mp (hsuffix.subset List.mem_cons_self)
      cases a with
      | text i =>
        have hnot : endsVoid (g.slot (.text i)) = false :=
          Text.endsVoid_of_not_hasNewline (htidied.hasNewline_text htext hi)
        rw [hnot] at hend
        cases hend
      | tail i =>
        refine ⟨_, hmem, ?_⟩
        rw [← htidied.breaksAgain_eq hid hnodup hsuffix, breaksAgain, hend, hbreak]
        rfl
  · rintro ⟨_ | ⟨_ | i, rest⟩, hmem, hmeets⟩
    · cases hmeets
    · cases hmeets
    · have hsuffix := (List.mem_tails _ _).mp hmem
      rw [← htidied.breaksAgain_eq hid hnodup hsuffix, breaksAgain, Bool.and_eq_true] at hmeets
      exact Or.inr ⟨.tail i, rest, hmem, hmeets⟩

/-- A loop, with the given tails of its last statement and of itself, before an assignment. -/
def loopBeforeAssignment (last loop : String) : Element where
  tag := "file"
  children :=
    [{ tag := "do-construct"
       tail := loop
       children :=
        [{ tag := "do-stmt", text := "DO", tail := "\n" },
         { tag := "end-do-stmt", text := "END DO", tail := last }] },
     { tag := "a-stmt", text := "X=1", tail := "\n" }]

theorem hasBlankLine_removeEmptyLines_iff_spacedLoop :
    (loopBeforeAssignment "\n \n\n\t" "").kind = .file ∧
      (∀ i ∈ (ofElement (loopBeforeAssignment "\n \n\n\t" "")).preorder, i ≠ root →
        hasNewline ((ofElement (loopBeforeAssignment "\n \n\n\t" "")).text i).toList = false) ∧
      ¬ HasBlankLine
        (removeEmptyLines
          (ofElement (loopBeforeAssignment "\n \n\n\t" ""))).forest.source.toList := by
  have hfile : (loopBeforeAssignment "\n \n\n\t" "").kind = .file := by decide +kernel
  have htext : ∀ i ∈ (ofElement (loopBeforeAssignment "\n \n\n\t" "")).preorder, i ≠ root →
      hasNewline ((ofElement (loopBeforeAssignment "\n \n\n\t" "")).text i).toList = false := by
    decide +kernel
  exact ⟨hfile, htext, fun h =>
    absurd ((hasBlankLine_removeEmptyLines_iff _ hfile htext).mp h) (by decide +kernel)⟩

/-- The loop and its last statement each end the line. -/
theorem hasBlankLine_removeEmptyLines_nestedEnds :
    (loopBeforeAssignment "\n" "\n").kind = .file ∧ (loopBeforeAssignment "\n" "\n").tail = "" ∧
      (∀ i ∈ (ofElement (loopBeforeAssignment "\n" "\n")).preorder, i ≠ root →
        hasNewline ((ofElement (loopBeforeAssignment "\n" "\n")).text i).toList = false) ∧
      (removeEmptyLines (ofElement (loopBeforeAssignment "\n" "\n"))).forest.source =
        "DO\nEND DO\n\nX=1\n" ∧
      HasBlankLine
        (removeEmptyLines (ofElement (loopBeforeAssignment "\n" "\n"))).forest.source.toList := by
  have hsource : (removeEmptyLines (ofElement (loopBeforeAssignment "\n" "\n"))).forest.source =
      "DO\nEND DO\n\nX=1\n" := by decide +kernel
  refine ⟨by decide +kernel, rfl, by decide +kernel, hsource, ?_⟩
  rw [hsource]
  exact ⟨"DO\nEND DO".toList, [], "X=1\n".toList, by decide +kernel, rfl⟩

end FortranLayout
