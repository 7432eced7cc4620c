import FortranLayout.Proofs.Forest.Ordered
import FortranLayout.Proofs.Indentation.Writes
import FortranLayout.Proofs.Markers.DirectiveLines
import FortranLayout.Proofs.Spacing.Slots

/-!
# The indentation of directive lines

The line of a node starts in some slot before the text of the node, and only that slot says whether
re-indenting moves the line: what comes after it has no newline. If the slot is the tail of the
sibling before a directive the line stays (`IndentParams.last?_writes_eq_none`). At the border of a
container the newline is in another tail, which is written without a look at the directive; then the
line stays exactly if the level that is written is the one it has
(`indentedBy_indentTree_directive`).
-/

namespace FortranLayout

/-! ## Indentation of the line that is being read -/

namespace Text

/-- The indentation after one more character, a tab counting for two blanks; `none` is a line on
which something else stands. -/
def indentStep (w : Option Nat) (c : Char) : Option Nat :=
  if c = '\n' then some 0
  else if c = ' ' then w.map (· + 1)
  else if c = '\t' then w.map (· + 2)
  else none

/-- The indentation of the line that is being read, after `s`. -/
def indentAfter (w : Option Nat) (s : List Char) : Option Nat := s.foldl indentStep w

variable {w v : Option Nat} {c : Char} {s t : List Char} {k n : Nat}

theorem indentAfter_append (w : Option Nat) (s t : List Char) :
    indentAfter w (s ++ t) = indentAfter (indentAfter w s) t := List.foldl_append

theorem indentAfter_cons (w : Option Nat) (c : Char) (s : List Char) :
    indentAfter w (c :: s) = indentAfter (indentStep w c) s := rfl

theorem indentAfter_blanks (k n : Nat) : indentAfter (some k) (blanks n) = some (k + n) := by
  induction n generalizing k with
  | zero => rfl
  | succ n ih =>
    have hcons : blanks (n + 1) = ' ' :: blanks n := rfl
    rw [hcons, indentAfter_cons]
    exact (ih (k + 1)).trans (congrArg some (by omega))

theorem hasNewline_cons : hasNewline (c :: s) = (c == '\n' || hasNewline s) := by
  rw [hasNewline, List.contains_cons, BEq.comm]
  rfl

theorem indentAfter_expandTabs (w : Option Nat) (s : List Char) :
    indentAfter w (expandTabs s) = indentAfter w s := by
  induction s generalizing w with
  | nil => rfl
  | cons c s ih =>
    have hstep : indentAfter w (if c = '\t' then blanks 2 else [c]) = indentStep w c := by
      split
      · rename_i hc
        subst hc
        cases w <;> rfl
      · rfl
    rw [expandTabs_cons, indentAfter_append, hstep, ih, indentAfter_cons]

/-- After a newline it does not matter what stood on the line before. -/
theorem indentAfter_of_hasNewline (hs : hasNewline s = true) (w v : Option Nat) :
    indentAfter w s = indentAfter v s := by
  induction s generalizing w v with
  | nil => cases hs
  | cons c s ih =>
    by_cases hc : c = '\n'
    · subst hc
      rfl
    · rw [hasNewline_cons, beq_eq_false_iff_ne.mpr hc, Bool.false_or] at hs
      exact ih hs _ _

/-- Without a newline the indentation grows by the same amount, wherever it starts. -/
theorem indentAfter_of_not_hasNewline (hs : hasNewline s = false) (w : Option Nat) :
    indentAfter w s = w.bind fun k => (indentAfter (some 0) s).map (k + ·) := by
  induction s generalizing w with
  | nil => cases w <;> rfl
  | cons c s ih =>
    rw [hasNewline_cons, Bool.or_eq_false_iff] at hs
    have hc : c ≠ '\n' := beq_eq_false_iff_ne.mp hs.1
    have hstep : indentStep w c = w.bind fun k => (indentStep (some 0) c).map (k + ·) := by
      rw [indentStep, indentStep, if_neg hc, if_neg hc]
      cases w <;> split <;> try split
      all_goals rfl
    rw [indentAfter_cons, indentAfter_cons, ih hs.2, ih hs.2 (indentStep (some 0) c), hstep]
    cases w <;> cases indentStep (some 0) c <;> cases indentAfter (some 0) s <;>
      simp [Nat.add_assoc]

end Text

open Text (indentAfter hasNewline)

namespace Text

/-- Without a newline there is no line to start. -/
theorem Pattern.everywhere_after_newline_of_not_hasNewline {s : List Char}
    (hs : hasNewline s = false) (n : Nat) : (Gaps.after '\n' n).everywhere s = s := by
  induction s with
  | nil => rfl
  | cons c s ih =>
    rw [hasNewline_cons, Bool.or_eq_false_iff] at hs
    rw [everywhere_after_newline_of_ne (beq_eq_false_iff_ne.mp hs.1), ih hs.2]

/-- Passing over the blanks at the start. -/
theorem indentAfter_dropWhile (s : List Char) :
    ∃ m, ∀ k, indentAfter (some k) s = indentAfter (some (k + m)) (s.dropWhile isBlank) := by
  induction s with
  | nil => exact ⟨0, fun _ => rfl⟩
  | cons c s ih =>
    by_cases hc : isBlank c = true
    · obtain ⟨m, hm⟩ := ih
      refine ⟨1 + m, fun k => ?_⟩
      have hblank : c = ' ' := by simpa [isBlank] using hc
      subst hblank
      rw [List.dropWhile_cons_of_pos rfl, ← Nat.add_assoc]
      exact hm (k + 1)
    · exact ⟨0, fun k => by rw [List.dropWhile_cons_of_neg hc, Nat.add_zero]⟩

/-- A line that goes on with something else than a blank or a tab has no indentation to set. -/
theorem indentAfter_of_head? {s : List Char} (htab : '\t' ∉ s) (hs : hasNewline s = false)
    (hhead : ∀ c ∈ s.head?, isBlank c = false) (n m : Nat) :
    indentAfter (some n) s = (indentAfter (some m) s).map fun _ => n := by
  cases s with
  | nil => rfl
  | cons c s =>
    rw [hasNewline_cons, Bool.or_eq_false_iff] at hs
    have hblank : c ≠ ' ' := by simpa [isBlank] using hhead c rfl
    have htab' : c ≠ '\t' := by
      rintro rfl
      exact htab List.mem_cons_self
    have hother (w : Option Nat) : indentStep w c = none := by
      rw [indentStep, if_neg (beq_eq_false_iff_ne.mp hs.1), if_neg hblank, if_neg htab']
    rw [indentAfter_cons, indentAfter_cons, hother, hother, indentAfter_of_not_hasNewline hs.2]
    rfl

/-- Starting lines at a column sets the indentation of the last one, if it has any. -/
theorem indentAfter_everywhere {s : List Char} (htab : '\t' ∉ s)
    (hs : hasNewline s = true) (n : Nat) (w : Option Nat) :
    indentAfter w ((Gaps.after '\n' n).everywhere s) = (indentAfter w s).map fun _ => n := by
  induction s using lines_induct generalizing w with
  | nil => cases hs
  | line s ih =>
    have htab' : '\t' ∉ s.dropWhile isBlank := fun h =>
      htab (List.mem_cons_of_mem _ ((List.dropWhile_sublist isBlank).subset h))
    obtain ⟨m, hm⟩ := indentAfter_dropWhile s
    have hleft : indentAfter w ('\n' :: blanks n) = some n :=
      (indentAfter_blanks 0 n).trans (congrArg some (Nat.zero_add n))
    have hright : indentAfter w ('\n' :: s) = indentAfter (some (0 + m)) (s.dropWhile isBlank) :=
      hm 0
    rw [Pattern.everywhere_after_newline, indentAfter_append, hleft, hright]
    cases hs' : hasNewline (s.dropWhile isBlank) with
    | true => rw [ih htab' hs', indentAfter_of_hasNewline hs']
    | false =>
      rw [Pattern.everywhere_after_newline_of_not_hasNewline hs']
      exact indentAfter_of_head? htab' hs' (isBlank_head?_dropWhile s) n (0 + m)
  | cons c s hc ih =>
    rw [hasNewline_cons, beq_eq_false_iff_ne.mpr hc, Bool.false_or] at hs
    rw [List.mem_cons, not_or] at htab
    rw [Pattern.everywhere_after_newline_of_ne hc, indentAfter_cons, indentAfter_cons]
    exact ih htab.2 hs _

end Text

namespace IndentParams

theorem hasNewline_expandTabs (s : List Char) : hasNewline (Text.expandTabs s) = hasNewline s := by
  induction s with
  | nil => rfl
  | cons c s ih =>
    have hhead : hasNewline (if c = '\t' then Text.blanks 2 else [c]) = (c == '\n') := by
      split
      · rename_i hc
        subst hc
        rfl
      · rw [Text.hasNewline_cons]
        exact Bool.or_false _
    rw [Text.expandTabs_cons, hasNewline_append, hhead, ih, Text.hasNewline_cons]

theorem hasNewline_relevel (level : Option Nat) (s : List Char) :
    hasNewline (relevel level s) = hasNewline s := by
  cases level with
  | none => exact hasNewline_expandTabs s
  | some n =>
    rw [relevel, atLevel, Text.hasNewline_of_squeeze (Text.Pattern.squeeze_everywhere _ _),
      hasNewline_expandTabs]

/-- A write sets the indentation of the last line that starts in the tail, to the level it has. -/
theorem indentAfter_relevel (level : Option Nat) (w : Option Nat) (s : List Char) :
    indentAfter w (relevel level s) =
      if hasNewline s then level.elim (indentAfter w s) fun n => (indentAfter w s).map fun _ => n
      else indentAfter w s := by
  cases level with
  | none => exact (Text.indentAfter_expandTabs w s).trans (ite_self _).symm
  | some n =>
    rw [relevel, atLevel, Option.elim_some]
    cases hs : hasNewline s with
    | true =>
      rw [Text.indentAfter_everywhere (Text.tab_not_mem_expandTabs s)
        ((hasNewline_expandTabs s).trans hs), Text.indentAfter_expandTabs]
      rfl
    | false =>
      rw [Text.Pattern.everywhere_after_newline_of_not_hasNewline
        ((hasNewline_expandTabs s).trans hs), Text.indentAfter_expandTabs]
      rfl

end IndentParams

/-! ## The slots before a node -/

namespace Shape

mutual

/-- The slots of a shape, in the order in which the source is written. -/
def slots : Shape → List TextSlot
  | .node i cs => .text i :: (slotsAll cs ++ [.tail i])

/-- The slots of several shapes. -/
def slotsAll : List Shape → List TextSlot
  | [] => []
  | s :: ss => slots s ++ slotsAll ss

end

mutual

/-- Each node of a shape with the slots before its text, if `before` are the slots before the shape.
-/
def slotsBefore (before : List TextSlot) : Shape → List (NodeId × List TextSlot)
  | .node i cs => (i, before) :: slotsBeforeIn (before ++ [.text i]) cs

/-- Each node of several shapes with the slots before its text. -/
def slotsBeforeIn (before : List TextSlot) : List Shape → List (NodeId × List TextSlot)
  | [] => []
  | s :: ss => slotsBefore before s ++ slotsBeforeIn (before ++ s.slots) ss

end

theorem map_fst_slotsBefore (s : Shape) (before : List TextSlot) :
    (s.slotsBefore before).map Prod.fst = s.preorder := by
  induction s using Shape.induct generalizing before with
  | h i cs ih =>
    rw [slotsBefore, List.map_cons, preorder_node]
    congr 1
    generalize before ++ [TextSlot.text i] = before
    induction cs generalizing before with
    | nil => rfl
    | cons c cs ihcs =>
      rw [slotsBeforeIn, List.map_append, ih c List.mem_cons_self, List.flatMap_cons,
        ihcs fun d hd => ih d (List.mem_cons_of_mem _ hd)]

end Shape

namespace Forest

theorem source_elementOf (f : Forest) (s : Shape) :
    (f.elementOf s).source.toList = s.slots.flatMap f.slot := by
  induction s using Shape.induct with
  | h i cs ih =>
    have hcs : (Element.sources (cs.map f.elementOf)).toList =
        (Shape.slotsAll cs).flatMap f.slot := by
      induction cs with
      | nil => rfl
      | cons c cs ihcs =>
        rw [List.map_cons, Element.sources, String.toList_append, ih c List.mem_cons_self,
          ihcs fun d hd => ih d (List.mem_cons_of_mem _ hd), Shape.slotsAll, List.flatMap_append]
    rw [elementOf_node, Element.source, Shape.slots, String.toList_append,
      String.toList_append, hcs]
    simp [slot]

/-- The source before a node is what the slots before it hold. -/
theorem sourcesBefore_eq (f : Forest) (s : Shape) (before : List TextSlot) :
    f.sourcesBefore (before.flatMap f.slot) s =
      (s.slotsBefore before).map fun q => (q.1, q.2.flatMap f.slot) := by
  induction s using Shape.induct generalizing before with
  | h i cs ih =>
    have htext : before.flatMap f.slot ++ (f.text i).toList =
        (before ++ [TextSlot.text i]).flatMap f.slot := by
      simp [slot]
    rw [sourcesBefore, Shape.slotsBefore, List.map_cons, htext]
    congr 1
    generalize before ++ [TextSlot.text i] = before
    induction cs generalizing before with
    | nil => rfl
    | cons c cs ihcs =>
      rw [sourcesBeforeIn, Shape.slotsBeforeIn, List.map_append, ih c List.mem_cons_self,
        source_elementOf, ← List.flatMap_append, ihcs fun d hd => ih d (List.mem_cons_of_mem _ hd)]

/-- The node is in the tree, on a line on which nothing but an indentation of `w` blanks stands
before its text; tabs count for two. -/
def IndentedBy (f : Forest) (i : NodeId) (w : Nat) : Prop :=
  ∃ q ∈ f.sourcesBefore [] (f.shape root), q.1 = i ∧ indentAfter (some 0) q.2 = some w

instance (f : Forest) (i : NodeId) (w : Nat) : Decidable (f.IndentedBy i w) :=
  inferInstanceAs (Decidable (∃ q ∈ f.sourcesBefore [] (f.shape root), _))

/-- The slots before the text of a node. -/
def slotsBefore (f : Forest) (i : NodeId) : List TextSlot :=
  (((f.shape root).slotsBefore []).find? (·.1 == i)).elim [] Prod.snd

/-- The slot in which the line of a node starts, unless that is the first line of the source. -/
def lineStart? (f : Forest) (i : NodeId) : Option TextSlot :=
  (f.slotsBefore i).reverse.find? fun a => hasNewline (f.slot a)

variable {f g : Forest} {s : Shape} {i : NodeId} {w : Nat}

theorem slotsBefore_eq (hs : s.preorder.Nodup) (hshape : f.shape root = s) {as : List TextSlot}
    (h : (i, as) ∈ s.slotsBefore []) : f.slotsBefore i = as := by
  rw [slotsBefore, hshape]
  cases hfind : (s.slotsBefore []).find? (·.1 == i) with
  | none => simpa using List.find?_eq_none.mp hfind _ h
  | some q =>
    have hq : q.1 = i := by simpa using List.find?_some hfind
    have hnodup : ((s.slotsBefore []).map Prod.fst).Nodup := by rwa [Shape.map_fst_slotsBefore]
    have heq : q = (i, as) := List.inj_on_of_nodup_map hnodup (List.mem_of_find?_eq_some hfind) h hq
    rw [heq]
    rfl

theorem indentedBy_iff (hs : s.preorder.Nodup) (hshape : f.shape root = s) :
    f.IndentedBy i w ↔
      i ∈ s.preorder ∧ indentAfter (some 0) ((f.slotsBefore i).flatMap f.slot) = some w := by
  have hsources := f.sourcesBefore_eq s []
  rw [List.flatMap_nil] at hsources
  rw [IndentedBy, hshape, hsources]
  constructor
  · rintro ⟨_, hq, hi, hw⟩
    obtain ⟨⟨j, as⟩, has, rfl⟩ := List.mem_map.mp hq
    obtain rfl : j = i := hi
    rw [slotsBefore_eq hs hshape has]
    exact ⟨Shape.map_fst_slotsBefore s [] ▸ List.mem_map_of_mem has, hw⟩
  · rintro ⟨hi, hw⟩
    rw [← Shape.map_fst_slotsBefore s []] at hi
    obtain ⟨⟨j, as⟩, has, rfl⟩ := List.mem_map.mp hi
    rw [slotsBefore_eq hs hshape has] at hw
    exact ⟨_, List.mem_map_of_mem has, rfl, hw⟩

end Forest

/-! ## Which slots decide -/

namespace Text

variable {α : Type} {u v : α → List Char} {as : List α}

theorem indentAfter_flatMap_congr (h : ∀ a ∈ as, ∀ w, indentAfter w (u a) = indentAfter w (v a))
    (w : Option Nat) : indentAfter w (as.flatMap u) = indentAfter w (as.flatMap v) := by
  induction as generalizing w with
  | nil => rfl
  | cons a as ih =>
    obtain ⟨ha, has⟩ := List.forall_mem_cons.mp h
    rw [List.flatMap_cons, List.flatMap_cons, indentAfter_append, indentAfter_append, ha, ih has]

theorem hasNewline_flatMap (h : ∀ a ∈ as, hasNewline (u a) = false) :
    hasNewline (as.flatMap u) = false := by
  induction as with
  | nil => rfl
  | cons a as ih =>
    obtain ⟨ha, has⟩ := List.forall_mem_cons.mp h
    rw [List.flatMap_cons, hasNewline_append, ha, ih has]
    rfl

/-- The part with the last newline sets the indentation, the parts behind it add to it. -/
theorem indentAfter_flatMap {a : α} {bs : List α} (ha : hasNewline (u a) = true)
    (hbs : ∀ b ∈ bs, hasNewline (u b) = false) :
    indentAfter (some 0) ((as ++ a :: bs).flatMap u) =
      (indentAfter none (u a)).bind fun k => (indentAfter (some 0) (bs.flatMap u)).map (k + ·) := by
  rw [List.flatMap_append, List.flatMap_cons, indentAfter_append, indentAfter_append,
    indentAfter_of_hasNewline ha _ none, indentAfter_of_not_hasNewline (hasNewline_flatMap hbs)]

/-- Two texts that agree on what is behind their last newlines have the same indentation exactly if
the parts with these newlines set the same. -/
theorem indentAfter_flatMap_iff {a : α} {bs : List α} {w : Nat} (hua : hasNewline (u a) = true)
    (hva : hasNewline (v a) = true) (hu : ∀ b ∈ bs, hasNewline (u b) = false)
    (hv : ∀ b ∈ bs, hasNewline (v b) = false)
    (hsame : ∀ b ∈ bs, ∀ w, indentAfter w (u b) = indentAfter w (v b))
    (h : indentAfter (some 0) ((as ++ a :: bs).flatMap v) = some w) :
    ∃ k, indentAfter none (v a) = some k ∧
      (indentAfter (some 0) ((as ++ a :: bs).flatMap u) = some w ↔
        indentAfter none (u a) = some k) := by
  rw [indentAfter_flatMap hva hv] at h
  rw [indentAfter_flatMap hua hu, indentAfter_flatMap_congr hsame]
  obtain ⟨k, hk, h⟩ := Option.bind_eq_some_iff.mp h
  obtain ⟨r, hr, rfl⟩ := Option.map_eq_some_iff.mp h
  refine ⟨k, hk, ?_⟩
  rw [hr]
  cases indentAfter none (u a) with
  | none => simp
  | some l => simp

end Text

/-! ## Writes and the siblings after them -/

/-- Node `m` is a child, and `next` is the sibling after it, if there is one. -/
def Forest.FollowedBy (f : Forest) (m : NodeId) (next : Option NodeId) : Prop :=
  ∃ q xs ys, f.children q = xs ++ m :: ys ∧ ys.head? = next

namespace IndentParams

variable {p : IndentParams} {f : Forest} {level : Nat} {inside previous : Option NodeId} {s : Shape}
  {w : LevelWrite}

/-- The write is to the tail of a child, and writes no level if the sibling after it keeps its line.
-/
def Spares (p : IndentParams) (f : Forest) (w : LevelWrite) : Prop :=
  ∃ next, f.FollowedBy w.node next ∧ (p.keepsLine f next = true → w.level = none)

theorem spares_lineWrite {m : NodeId} {next : Option NodeId} (h : f.FollowedBy m next)
    (level : Nat) :
    Spares p f (p.lineWrite f m level next) :=
  ⟨next, h, fun hkeeps => if_pos hkeeps⟩

/-- The last child has no sibling after it, so no line to keep. -/
theorem spares_afterLastWrites {child : NodeId}
    (hw : w ∈ p.afterLastWrites f previous level child) : Spares p f w := by
  rw [afterLastWrites] at hw
  split at hw
  · rename_i last hlast
    obtain ⟨j, _, hj⟩ := Option.bind_eq_some_iff.mp hlast
    obtain ⟨xs, hxs⟩ := List.getLast?_eq_some_iff.mp hj
    rw [List.mem_singleton.mp hw]
    exact ⟨none, ⟨j, xs, [], hxs, rfl⟩, fun hkeeps => by cases hkeeps⟩
  · cases hw

theorem spares_closeArmWrites {arm : NodeId} (hw : w ∈ p.closeArmWrites f level arm) :
    Spares p f w := by
  rw [closeArmWrites] at hw
  split at hw
  · rename_i before last harm
    rw [List.mem_singleton.mp hw]
    rw [Forest.armEnd?] at harm
    split at harm
    · rename_i last' before' rest hchildren
      split at harm
      · obtain ⟨rfl, rfl⟩ := Prod.mk.inj (Option.some.inj harm)
        refine spares_lineWrite ⟨arm, rest.reverse, [last'], ?_, rfl⟩ level
        have hreverse := congrArg List.reverse hchildren
        simpa using hreverse
      · cases harm
    · cases harm
  · cases hw

theorem spares_closeWrites {child : NodeId} (h : ∀ i ∈ previous, f.FollowedBy i (some child))
    (hw : w ∈ p.closeWrites f inside previous level child) : Spares p f w := by
  cases previous with
  | none => cases hw
  | some i =>
    rw [closeWrites] at hw
    split at hw
    · rw [List.mem_singleton.mp hw]
      exact spares_lineWrite (h i rfl) level
    · cases hw

theorem spares_writesFrom {cs : List Shape} {q : NodeId} {pre : List NodeId}
    (hcs : ∀ s ∈ cs, ∀ level inside, ∀ w ∈ p.writesBelow f level inside s, Spares p f w)
    (hq : f.children q = pre ++ cs.map Shape.id) (inSelect : Bool) (current : Nat)
    (hw : w ∈ p.writesFrom f level inside inSelect current pre.getLast? cs) : Spares p f w := by
  induction cs generalizing current pre with
  | nil =>
    rw [writesFrom] at hw
    cases hw
  | cons s rest ih =>
    obtain ⟨hs, hrest⟩ := List.forall_mem_cons.mp hcs
    rw [List.map_cons] at hq
    rw [writesFrom] at hw
    simp only [List.mem_append] at hw
    rcases hw with ((hw | hw) | hw) | hw
    · rw [List.mem_singleton.mp hw]
      exact spares_lineWrite ⟨q, pre, rest.map Shape.id, hq, by rw [List.head?_map]⟩ _
    · split at hw
      · simp only [List.mem_append] at hw
        rcases hw with (hw | hw) | hw
        · exact spares_afterLastWrites hw
        · exact hs _ _ w hw
        · exact spares_closeArmWrites hw
      · split at hw
        · rcases List.mem_append.mp hw with hw | hw
          · split at hw
            · exact spares_afterLastWrites hw
            · cases hw
          · exact hs _ _ w hw
        · cases hw
    · refine spares_closeWrites (fun i hi => ?_) hw
      obtain ⟨xs, rfl⟩ := List.getLast?_eq_some_iff.mp hi
      exact ⟨q, xs, s.id :: rest.map Shape.id, by rw [hq, List.append_assoc, List.singleton_append],
        rfl⟩
    · have hprevious : some s.id = (pre ++ [s.id]).getLast? := by rw [List.getLast?_concat]
      rw [hprevious] at hw
      exact ih hrest (by rw [hq, List.append_assoc, List.singleton_append]) _ hw

theorem spares_writesBelow (hs : f.Carries s) :
    ∀ level inside, ∀ w ∈ p.writesBelow f level inside s, Spares p f w := by
  induction s using Shape.induct with
  | h i cs ih =>
    intro level inside w hw
    obtain ⟨_, hchildren, hcs⟩ := Forest.carries_node.mp hs
    have hnone : f.children i = [] ++ cs.map Shape.id := hchildren
    rw [writesBelow] at hw
    exact spares_writesFrom (fun c hc => ih c hc (hcs c hc)) hnone _ _ hw

end IndentParams

namespace Forest

theorem shape_ofElement (e : Element) : (ofElement e).shape root = e.shapeFrom 0 := by
  have hid : (e.shapeFrom 0).id = root := e.id_shapeFrom 0
  rw [← hid]
  exact (holds_ofElement e).shape_eq

theorem followedBy_of_previousSibling? {f : Forest} {i m : NodeId}
    (h : f.previousSibling? i = some m) :
    f.FollowedBy m (some i) := by
  rw [previousSibling?, siblingsBefore] at h
  split at h
  · rename_i q k hq
    rw [position?, Option.bind_eq_some_iff] at hq
    obtain ⟨q', _, hq⟩ := hq
    obtain ⟨k', hindex, hpair⟩ := Option.map_eq_some_iff.mp hq
    obtain ⟨rfl, rfl⟩ := Prod.mk.inj hpair
    obtain ⟨hlt, hi, _⟩ := List.idxOf?_eq_some_iff.mp hindex
    obtain ⟨xs, hxs⟩ := List.getLast?_eq_some_iff.mp h
    have hdrop := List.drop_eq_getElem_cons hlt
    have hsplit := List.take_append_drop k' (f.children q')
    rw [hi] at hdrop
    rw [hxs, hdrop, List.append_assoc, List.singleton_append] at hsplit
    exact ⟨q', xs, _, hsplit.symm, rfl⟩
  · cases h

/-- A node is the child of one parent, and comes once among its children. -/
theorem FollowedBy.unique {e : Element} {m : NodeId} {next next' : Option NodeId}
    (h : (ofElement e).FollowedBy m next) (h' : (ofElement e).FollowedBy m next') :
    next = next' := by
  have hparent := (ordered_ofElement e).parent?_child
  have hnodup (q : NodeId) : ((ofElement e).children q).Nodup :=
    (pairwise_children_ofElement e q).imp fun hlt => Nat.ne_of_lt hlt
  generalize ofElement e = f at h h' hparent hnodup
  obtain ⟨q, xs, ys, hq, rfl⟩ := h
  obtain ⟨q', xs', ys', hq', rfl⟩ := h'
  have hmem : m ∈ f.children q := hq ▸ List.mem_append_right xs List.mem_cons_self
  have hmem' : m ∈ f.children q' := hq' ▸ List.mem_append_right xs' List.mem_cons_self
  obtain rfl : q = q' := Option.some.inj ((hparent q m hmem).symm.trans (hparent q' m hmem'))
  have hnot : m ∉ xs ++ ys := by
    have hn := hnodup q
    rw [hq, List.nodup_middle] at hn
    exact (List.nodup_cons.mp hn).1
  rw [List.mem_append, not_or] at hnot
  have hys := ((List.append_cons_inj_of_notMem hnot.1 hnot.2).mp (hq.symm.trans hq')).2.2
  rw [hys]

/-- The sibling after the sibling before a node is the node. -/
theorem eq_of_followedBy {e : Element} {i m : NodeId} {next : Option NodeId}
    (hm : (ofElement e).previousSibling? i = some m) (h : (ofElement e).FollowedBy m next) :
    next = some i :=
  h.unique (followedBy_of_previousSibling? hm)

end Forest

open Forest

/-- No level is written after the sibling before a node that keeps its line. -/
theorem IndentParams.last?_writes_eq_none {p : IndentParams} {e : Element} {i m : NodeId}
    (hkeeps : p.keepsLine (ofElement e) (some i) = true)
    (hm : (ofElement e).previousSibling? i = some m) :
    LevelWrite.last? (p.writes root 0 (ofElement e)) m = none := by
  refine LevelWrite.last?_eq_none fun w hw hnode => ?_
  rw [writes, shape_ofElement] at hw
  obtain ⟨next, hnext, hspares⟩ := spares_writesBelow (holds_ofElement e).carries 0 none w hw
  rw [hnode] at hnext
  rw [eq_of_followedBy hm hnext] at hspares
  exact hspares hkeeps

/-! ## Lines after re-indenting -/

section Lines

variable (p : IndentParams) (f : Forest)

theorem text_indentTree (j : NodeId) : (indentTree p f).forest.text j = f.text j := by
  obtain ⟨_, hr⟩ := sameButTails_indentSubtree p root 0 f
  exact hr.text_eq j

theorem tail_indentTree (j : NodeId) :
    ((indentTree p f).forest.tail j).toList =
      if LevelWrite.reach (p.writes root 0 f) j then
        IndentParams.relevel (LevelWrite.last? (p.writes root 0 f) j) (f.tail j).toList
      else (f.tail j).toList := by
  rw [indentTree, indentSubtree_eq]
  exact Draft.tail_writeLevels { forest := f } _ j

theorem hasNewline_slot_indentTree (a : TextSlot) :
    hasNewline ((indentTree p f).forest.slot a) = hasNewline (f.slot a) := by
  cases a with
  | text j => rw [slot, slot, text_indentTree]
  | tail j =>
    rw [slot, slot, tail_indentTree]
    split
    · exact IndentParams.hasNewline_relevel _ _
    · rfl

/-- What is written to a tail shows in the indentation after it if a line starts there. -/
theorem indentAfter_tail_indentTree (j : NodeId) (w : Option Nat) :
    indentAfter w ((indentTree p f).forest.tail j).toList =
      if hasNewline (f.tail j).toList then
        (LevelWrite.last? (p.writes root 0 f) j).elim (indentAfter w (f.tail j).toList) fun n =>
          (indentAfter w (f.tail j).toList).map fun _ => n
      else indentAfter w (f.tail j).toList := by
  rw [tail_indentTree]
  cases hreach : LevelWrite.reach (p.writes root 0 f) j with
  | true => exact IndentParams.indentAfter_relevel _ w _
  | false =>
    rw [LevelWrite.last?_of_not_reach hreach]
    exact (ite_self _).symm

theorem indentAfter_slot_indentTree {a : TextSlot} (ha : hasNewline (f.slot a) = false)
    (w : Option Nat) :
    indentAfter w ((indentTree p f).forest.slot a) = indentAfter w (f.slot a) := by
  cases a with
  | text j => rw [slot, slot, text_indentTree]
  | tail j =>
    rw [slot] at ha
    rw [slot, slot, indentAfter_tail_indentTree, ha]
    rfl

end Lines

/-- The line of a node stays as it is unless it starts in a tail to which another level is written.
-/
theorem indentedBy_indentTree_iff (p : IndentParams) {e : Element} {i : NodeId} {w : Nat}
    (h : (ofElement e).IndentedBy i w) :
    (indentTree p (ofElement e)).forest.IndentedBy i w ↔
      ∀ m n, (ofElement e).lineStart? i = some (.tail m) →
        LevelWrite.last? (p.writes root 0 (ofElement e)) m = some n →
          indentAfter none ((ofElement e).tail m).toList = some n := by
  have hnodup := (holds_ofElement e).nodup
  have hshape : (indentTree p (ofElement e)).forest.shape root = e.shapeFrom 0 := by
    obtain ⟨_, hr⟩ := sameButTails_indentSubtree p root 0 (ofElement e)
    rw [← shape_ofElement, indentTree, shape, shape, hr.size_eq, shapeWithin_congr hr.children_eq]
  have hbefore : (indentTree p (ofElement e)).forest.slotsBefore i =
      (ofElement e).slotsBefore i := by
    rw [slotsBefore, slotsBefore, hshape, shape_ofElement]
  rw [indentedBy_iff hnodup (shape_ofElement e)] at h
  rw [indentedBy_iff hnodup hshape, hbefore, and_iff_right h.1, lineStart?]
  replace h := h.2
  have hslot {a : TextSlot} := indentAfter_slot_indentTree p (ofElement e) (a := a)
  generalize (ofElement e).slotsBefore i = as at h
  cases hstart : as.reverse.find? fun a => hasNewline ((ofElement e).slot a) with
  | none =>
    -- All before the node is on the first line.
    have hfirst : ∀ a ∈ as, hasNewline ((ofElement e).slot a) = false := by simpa using hstart
    rw [Text.indentAfter_flatMap_congr fun a ha => hslot (hfirst a ha), h]
    simp
  | some a =>
    obtain ⟨ha, bs, cs, hsplit, hbs⟩ := List.find?_eq_some_iff_append.mp hstart
    have has : as = cs.reverse ++ a :: bs.reverse := by simpa using congrArg List.reverse hsplit
    have hlater : ∀ b ∈ bs.reverse, hasNewline ((ofElement e).slot b) = false := by simpa using hbs
    rw [has] at h ⊢
    have hnewline := hasNewline_slot_indentTree p (ofElement e)
    obtain ⟨k, hk, hiff⟩ := Text.indentAfter_flatMap_iff ((hnewline a).trans ha) ha
      (fun b hb => (hnewline b).trans (hlater b hb)) hlater (fun b hb => hslot (hlater b hb)) h
    rw [hiff]
    cases a with
    | text j => simpa [slot, text_indentTree] using hk
    | tail j =>
      rw [slot] at ha hk
      rw [slot, indentAfter_tail_indentTree, ha, if_pos rfl, hk]
      constructor
      · intro heq m n hm hlast
        cases hm
        rw [hlast] at heq
        exact hk.trans heq.symm
      · intro hall
        cases hlast : LevelWrite.last? (p.writes root 0 (ofElement e)) j with
        | none => rfl
        | some n => exact (hall j n rfl hlast).symm.trans hk

/-- The line of a directive, or of a comment that is excluded as one, keeps its indentation exactly
if it starts in the tail of the sibling before it, or in no tail to which a level other than its own
is written. -/
theorem indentedBy_indentTree_directive (p : IndentParams) (e : Element) (i : NodeId) (w : Nat)
    (hkind : (ofElement e).kind i = .directive ∨ (ofElement e).kind i = .comment ∧
      ∃ start ∈ p.excludedDirectives, Text.beginsWith start ((ofElement e).text i) = true)
    (h : (ofElement e).IndentedBy i w) :
    (indentTree p (ofElement e)).forest.IndentedBy i w ↔
      ∀ m, (ofElement e).lineStart? i = some (.tail m) →
        (ofElement e).previousSibling? i = some m ∨
          ∀ n, LevelWrite.last? (p.writes root 0 (ofElement e)) m = some n →
            indentAfter none ((ofElement e).tail m).toList = some n := by
  have hkeeps : p.keepsLine (ofElement e) (some i) = true := by
    rcases hkind with hkind | ⟨hkind, hstart⟩
    · rw [IndentParams.keepsLine, hkind]
    · rw [IndentParams.keepsLine, hkind]
      exact List.any_eq_true.mpr hstart
  rw [indentedBy_indentTree_iff p h]
  constructor
  · exact fun hall m hm => Or.inr fun n => hall m n hm
  · intro hall m n hm hlast
    rcases hall m hm with hsibling | hlevel
    · rw [IndentParams.last?_writes_eq_none hkeeps hsibling] at hlast
      cases hlast
    · exact hlevel n hlast

/-- A loop with directives before its body and after its end. -/
def guardedLoop : Element where
  tag := "file"
  children :=
    [{ tag := "do-construct"
       children :=
        [{ tag := "do-stmt", text := "DO", tail := "\n\t" },
         { tag := "C", text := "!$OMP SIMD", tail := "\n" },
         { tag := "a-stmt", text := "X=1", tail := "\n" },
         { tag := "end-do-stmt", text := "END DO", tail := "\n" }] },
     { tag := "cpp", text := "#endif", tail := "\n" }]

theorem indentedBy_indentTree_directive_guardedLoop :
    (ofElement guardedLoop).kind 3 = .comment ∧ (ofElement guardedLoop).IndentedBy 3 2 ∧
      (indentTree {} (ofElement guardedLoop)).forest.IndentedBy 3 2 := by
  have hbefore : (ofElement guardedLoop).IndentedBy 3 2 := by decide +kernel
  refine ⟨by decide +kernel, hbefore, ?_⟩
  refine (indentedBy_indentTree_directive {} guardedLoop 3 2 (Or.inr ?_) hbefore).mpr ?_
  · exact ⟨by decide +kernel, "!$OMP", List.mem_cons_self, by decide +kernel⟩
  intro m hm
  have hstart : (ofElement guardedLoop).lineStart? 3 = some (.tail 2) := by decide +kernel
  rw [hstart] at hm
  cases hm
  exact Or.inl (by decide +kernel)

/-- The line of the directive after the loop starts in the tail of the END DO, and is moved into the
loop. -/
theorem not_indentedBy_guardedLoop :
    (ofElement guardedLoop).kind 6 = .directive ∧ (ofElement guardedLoop).IndentedBy 6 0 ∧
      ¬ (indentTree {} (ofElement guardedLoop)).forest.IndentedBy 6 0 ∧
      (indentTree {} (ofElement guardedLoop)).forest.source =
        "DO\n  !$OMP SIMD\n  X=1\nEND DO\n  #endif\n" := by
  refine ⟨?_, ?_, ?_, ?_⟩ <;> decide +kernel

end FortranLayout
