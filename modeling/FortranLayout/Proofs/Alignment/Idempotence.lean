import FortranLayout.Proofs.Alignment.Refinement
import FortranLayout.Proofs.LineStarts

/-!
# Aligning twice

The walk reads on in the tails that it has just written. So on an aligned tree it goes through the
same margins once more and finds every tail as it would write it (`Element.alignAll_alignAll`), and
the store stays as it is (`Alignment.alignBelow_of_aligned`).
-/

namespace FortranLayout

namespace Margin

theorem startAt_startAt (t : String) (n : Nat) : startAt (startAt t n) n = startAt t n := by
  rw [startAt, startAt, String.toList_ofList, Text.Pattern.everywhere_everywhere_after_newline]

theorem hasNewline_startAt (t : String) (n : Nat) :
    Text.hasNewline (startAt t n).toList = Text.hasNewline t.toList := by
  apply Text.hasNewline_of_squeeze
  rw [startAt, String.toList_ofList, Text.Pattern.squeeze_everywhere]

variable (m : Margin) (c : AnchorClass) (kind : Kind) (tail : String) (next : Option Kind)
  (afterComment : Bool)

/-- Aligned or not, a tail has its newlines, so its element is a marker at the end of a line or not.
-/
theorem isEnd_tailAfter :
    isEnd kind (m.tailAfter c kind tail next afterComment) next = isEnd kind tail next := by
  rw [isEnd, isEnd, tailAfter]
  split
  · rw [hasNewline_startAt]
  · rfl

theorem tailAfter_tailAfter :
    m.tailAfter c kind (m.tailAfter c kind tail next afterComment) next afterComment =
      m.tailAfter c kind tail next afterComment := by
  have hend := m.isEnd_tailAfter c kind tail next afterComment
  rw [tailAfter, continues, found, hend, ← continues, ← found]
  split
  · rename_i h
    rw [tailAfter, if_pos h, startAt_startAt]
  · rfl

theorem found_tailAfter :
    m.found c kind (m.tailAfter c kind tail next afterComment) next = m.found c kind tail next := by
  rw [found, isEnd_tailAfter, ← found]

end Margin

namespace Element

theorem head?_kind_alignAll (c : AnchorClass) (afterComment : Bool)
    (follow : Option Kind) (m : Margin) (es : List Element) :
    (alignAll c afterComment follow m es).1.head?.map kind = es.head?.map kind := by
  cases es with
  | nil => rfl
  | cons e es =>
    rw [alignAll]
    rfl

/-- The walk through aligned elements: the same margins, and nothing to change. -/
theorem alignAll_alignAll {es : List Element}
    (ih : ∀ e ∈ es, ∀ c m, alignBelow c m { e with children := (e.alignBelow c m).1 } =
      e.alignBelow c m)
    (c : AnchorClass) (afterComment : Bool) (follow : Option Kind) (m : Margin) :
    alignAll c afterComment follow m (alignAll c afterComment follow m es).1 =
      alignAll c afterComment follow m es := by
  induction es generalizing afterComment m with
  | nil => simp [alignAll]
  | cons e es ihes =>
    have hrest := ihes fun d hd => ih d (List.mem_cons_of_mem _ hd)
    have hbelow := ih e List.mem_cons_self
    rw [alignAll]
    dsimp only
    rw [alignAll, head?_kind_alignAll]
    generalize (es.head?.map kind).or follow = next
    have hkind : ∀ t cs, ({ e with tail := t, children := cs } : Element).kind = e.kind :=
      fun _ _ => rfl
    have hown : ∀ t cs c' m', alignBelow c' m' { e with tail := t, children := cs } =
        alignBelow c' m' { e with children := cs } := fun t cs c' m' =>
      alignBelow_with_tail c' m' { e with children := cs } t
    simp only [hkind, hown, Margin.isEnd_tailAfter]
    generalize (afterComment || (Margin.isEnd e.kind e.tail next && next == some .comment)) =
      afterComment'
    rw [Margin.tailAfter_tailAfter, Margin.found_tailAfter, hbelow, hrest]

/-- Aligning below an element a second time. -/
theorem alignBelow_alignBelow (e : Element) (c : AnchorClass) (m : Margin) :
    alignBelow c m { e with children := (e.alignBelow c m).1 } = e.alignBelow c m := by
  induction e using Element.induct generalizing c m with
  | h tag text tail cs ih =>
    rw [alignBelow_mk, alignBelow_mk]
    exact alignAll_alignAll ih _ _ _ _

theorem aligned_aligned (e : Element) : e.aligned.aligned = e.aligned := by
  rw [aligned, aligned, alignBelow_alignBelow]

end Element

namespace Alignment

open Forest

variable {a b : Alignment} {p i : Nat}

/-- The store and the count have not changed. -/
def Rests (a b : Alignment) : Prop := b.forest = a.forest ∧ b.aligned = a.aligned

theorem Rests.trans {c : Alignment} (h₁ : Rests a b) (h₂ : Rests b c) : Rests a c :=
  ⟨h₂.1.trans h₁.1, h₂.2.trans h₁.2⟩

theorem rests_readText (a : Alignment) (i : Nat) : Rests a (a.readText i) := by
  rw [readText]
  split <;> exact ⟨rfl, rfl⟩

theorem rests_readTail (a : Alignment) (i : Nat) : Rests a (a.readTail i) := by
  rw [readTail]
  split
  · exact ⟨rfl, rfl⟩
  · split <;> exact ⟨rfl, rfl⟩

theorem rests_findColumn (a : Alignment) (p : Nat) (next : Option Kind) :
    Rests a (a.findColumn p next) := by
  rw [findColumn]
  split <;> exact ⟨rfl, rfl⟩

/-- A tail that is aligned already is not counted. -/
theorem rests_alignAfter {next : Option Kind} {afterComment : Bool}
    (h : a.margin.tailAfter (a.forest.anchorClass p) (a.forest.kind i) (a.forest.tail i) next
      afterComment = a.forest.tail i) : Rests a (a.alignAfter p i next afterComment) := by
  have hfound : Rests a (if a.isEndMarker i next then a.findColumn p next else a) ∧
      (if a.isEndMarker i next then a.findColumn p next else a).margin =
        a.margin.found (a.forest.anchorClass p) (a.forest.kind i) (a.forest.tail i) next := by
    rw [Margin.found, show Margin.isEnd (a.forest.kind i) (a.forest.tail i) next =
      a.isEndMarker i next from rfl]
    split
    · exact ⟨rests_findColumn a p next, (findColumn_spec a p next).1⟩
    · exact ⟨⟨rfl, rfl⟩, rfl⟩
  rw [alignAfter]
  dsimp only
  generalize (if a.isEndMarker i next then a.findColumn p next else a) = b at hfound ⊢
  obtain ⟨hrests, hmargin⟩ := hfound
  split
  · rename_i hcontinues
    split
    · exact hrests
    · rename_i hnext
      refine hrests.trans ?_
      have hguard : (a.margin.continues (a.forest.kind i) (a.forest.tail i) next afterComment &&
          next != some .directive) = true := by
        rw [Bool.and_eq_true]
        exact ⟨hcontinues, by simpa using hnext⟩
      rw [Margin.tailAfter, if_pos hguard, ← hmargin, ← hrests.1] at h
      rw [alignTail, if_pos (by exact h)]
      exact ⟨rfl, rfl⟩
  · exact ⟨rfl, rfl⟩

/-- Below an aligned shape nothing changes. -/
def RestsBelow (s : Shape) : Prop :=
  ∀ (a : Alignment) (c : AnchorClass), a.forest.Holds s → a.forest.Classed s →
    a.forest.anchorClass s.id = c.within (a.forest.kind s.id) →
    ((a.forest.elementOf s).alignBelow c a.margin).1 = (a.forest.elementOf s).children →
    Rests a (alignBelow s a)

theorem rests_alignFrom {cs : List Shape} (ih : ∀ s ∈ cs, RestsBelow s) (afterComment : Bool)
    (hv : Visitable a.forest p cs)
    (h : (Element.alignAll (a.forest.anchorClass p) afterComment none a.margin
      (cs.map a.forest.elementOf)).1 = cs.map a.forest.elementOf) :
    Rests a (alignFrom p afterComment cs a) := by
  induction cs generalizing afterComment a with
  | nil =>
    rw [alignFrom]
    exact ⟨rfl, rfl⟩
  | cons s rest ihrest =>
    have hs := List.mem_cons_self (a := s) (l := rest)
    have hend : ∀ next, a.isEndMarker s.id next =
      Margin.isEnd (a.forest.kind s.id) (a.forest.tail s.id) next := fun _ => rfl
    rw [List.map_cons, Element.alignAll, nextKind_elementOf, kind_elementOf, tail_elementOf] at h
    rw [alignFrom]
    simp only [hend]
    generalize (rest.head?.map fun t => a.forest.kind t.id) = next at h ⊢
    generalize (afterComment ||
      (Margin.isEnd (a.forest.kind s.id) (a.forest.tail s.id) next && next == some .comment)) =
        afterComment' at h ⊢
    obtain ⟨hself, hrest⟩ := List.cons.inj h
    have htail := congrArg Element.tail hself
    have hbelow := congrArg Element.children hself
    rw [tail_elementOf] at htail
    have hclass := hv.class_eq s hs
    -- The four steps of a visit leave the store alone.
    have h₁ := rests_alignAfter htail
    obtain ⟨hm₁, _, _⟩ := alignAfter_spec (p := p) (hv.holds s hs).carries.id_lt next afterComment'
    have h₂ := h₁.trans (rests_readText (a.alignAfter p s.id next afterComment') s.id)
    have hm₂ := margin_readText (a.alignAfter p s.id next afterComment') s.id
    rw [hm₁, h₁.1] at hm₂
    obtain ⟨hm, _, _⟩ := visit_spec (followsBelow s) (hv.holds s hs) (hv.classed s hs) hclass next
      afterComment' rfl rfl
    generalize (a.alignAfter p s.id next afterComment').readText s.id = b at h₂ hm₂ hm ⊢
    have hb : b.forest = a.forest := h₂.1
    rw [← hb] at hclass
    have h₃ : Rests b (alignBelow s b) := by
      refine ih s hs b _ ?_ ?_ hclass ?_
      · rw [hb]
        exact hv.holds s hs
      · rw [hb]
        exact hv.classed s hs
      · rw [hm₂, hb]
        rw [text_elementOf] at hbelow
        exact hbelow
    have h₄ := h₂.trans (h₃.trans (rests_readTail (alignBelow s b) s.id))
    generalize (alignBelow s b).readTail s.id = d at hm h₄ ⊢
    have hd : d.forest = a.forest := h₄.1
    refine h₄.trans (ihrest (fun t ht => ih t (List.mem_cons_of_mem _ ht)) _ ?_ ?_)
    · rw [hd]
      exact hv.rest
    · rw [hd, hm, kind_elementOf, tail_elementOf]
      exact hrest

theorem restsBelow (s : Shape) : RestsBelow s := by
  induction s using Shape.induct with
  | h i cs ih =>
    intro a c hheld hclassed hclass h
    rw [elementOf_node, Element.alignBelow_mk] at h
    rw [Shape.id_node] at hclass
    rw [alignBelow]
    refine rests_alignFrom ih false (visitable_of_holds hheld hclassed) ?_
    rw [hclass]
    exact h

/-- Aligning an aligned tree changes nothing and counts nothing. -/
theorem alignBelow_of_aligned {f : Forest} {s : Shape} (hi : f.Indexable) (hf : f.Holds s)
    (hs : s.id = root) (h : f.toElement.aligned = f.toElement) :
    Rests { forest := f.indexed } (alignBelow (f.shape root) { forest := f.indexed }) := by
  rw [← hs, hf.shape_eq]
  refine restsBelow s _ .generic hf.indexed (hi.anchorClass_child hf hs)
    (hi.anchorClass_root hf hs) ?_
  rw [elementOf_indexed, ← hf.toElement_eq hs]
  exact congrArg Element.children h

end Alignment

end FortranLayout
