import FortranLayout.Proofs.Forest.Parents
import FortranLayout.Proofs.Markers.LineBegins

/-!
# What a visit leaves of the nodes that were there

Adding begin markers puts new nodes among the children of a node and takes none out. Removing them
takes out a marker only if it ends no line. So a marker that was there before both is never taken
out, if it ends its line; that property is kept by every visit of either pass.
-/

namespace FortranLayout

/-- Options that remove markers at the beginnings of lines and do nothing else. -/
def MarkerOptions.removeBeginOnly : MarkerOptions where
  align := false
  removeAll := false
  addBegin := false
  removeBegin := true

/-! ## Lists in which each entry is judged by the next one -/

/-- Each entry stands in a relation to the entry after it, if there is one. -/
def EachNext {α : Type} (R : α → Option α → Prop) : List α → Prop
  | [] => True
  | a :: as => R a as.head? ∧ EachNext R as

namespace EachNext

variable {α : Type} {R S : α → Option α → Prop} {a b : α} {xs ys : List α}

theorem mono (h : ∀ a b, R a b → S a b) (hxs : EachNext R xs) : EachNext S xs := by
  induction xs with
  | nil => trivial
  | cons a xs ih => exact ⟨h _ _ hxs.1, ih hxs.2⟩

theorem insert (h : EachNext R (xs ++ a :: ys)) (ha : R a (some b)) (hb : R b ys.head?) :
    EachNext R (xs ++ a :: b :: ys) := by
  induction xs with
  | nil => exact ⟨ha, hb, h.2⟩
  | cons x xs ih =>
    refine ⟨?_, ih h.2⟩
    cases xs with
    | nil => exact h.1
    | cons y xs => exact h.1

theorem remove (h : EachNext R (xs ++ b :: ys)) (hb : ∀ a, R a (some b) → R a ys.head?) :
    EachNext R (xs ++ ys) := by
  induction xs with
  | nil => exact h.2
  | cons x xs ih =>
    refine ⟨?_, ih h.2⟩
    cases xs with
    | nil => exact hb x h.1
    | cons y xs => exact h.1

theorem of_splits (h : ∀ pre a post, xs = pre ++ a :: post → R a post.head?) : EachNext R xs := by
  induction xs with
  | nil => trivial
  | cons x xs ih =>
    exact ⟨h [] x xs rfl, ih fun pre a post hs => h (x :: pre) a post (by rw [hs]; rfl)⟩

theorem at_split (h : EachNext R (xs ++ a :: ys)) : R a ys.head? := by
  induction xs with
  | nil => exact h.1
  | cons x xs ih => exact ih h.2

end EachNext

/-- Adding a begin marker, in terms of the layout and the code of tails. -/
theorem MarkerDraft.addBegin_eq (m : MarkerDraft) (p : NodeId) (k : Nat) (c : NodeId)
    (comments : List NodeId) (next : Option NodeId) :
    m.addBegin p k c comments next =
      if !(codeFrom (m.forest.tail c).toList).isEmpty then
        MarkerDraft.insertMarker
          { m with forest :=
            m.forest.setTail c (String.ofList (layoutBefore (m.forest.tail c).toList)) }
          p (k + 1) (' ' :: codeFrom (m.forest.tail c).toList)
      else if next.any (m.forest.kind · != .continuation) then
        match comments.getLast? with
        | none => m.insertMarker p (k + 1) [' ']
        | some last =>
          MarkerDraft.insertMarker
            { m with
              forest :=
                m.forest.setTail last (String.ofList (layoutBefore (m.forest.tail last).toList)) }
            p (k + 1 + comments.length) (' ' :: codeFrom (m.forest.tail last).toList)
      else m := rfl

namespace Forest

variable {f g : Forest} {n : Nat}

/-! ## Old markers -/

/-- Whether the next sibling is a comment or a directive. -/
def beforeComment (f : Forest) (next : Option NodeId) : Bool :=
  next.any fun d => (f.kind d).isCommentLike

/-- If node `c` is a marker below number `n`, it ends its line, and it still does when the code is
cut off its tail. -/
def Broken (f : Forest) (n : Nat) (c : NodeId) (next : Option NodeId) : Prop :=
  c < n → f.kind c = .continuation →
    Text.hasNewline (layoutBefore (f.tail c).toList) = true ∨
      codeFrom (f.tail c).toList = [] ∧ f.beforeComment next = true

/-- If node `c` is a marker below number `n`, it ends its line. -/
def Ended (f : Forest) (n : Nat) (c : NodeId) (next : Option NodeId) : Prop :=
  c < n → f.kind c = .continuation →
    Text.hasNewline (f.tail c).toList = true ∨ f.beforeComment next = true

theorem startsWithComment_map_elementOf (f : Forest) (ss : List Shape) :
    Element.startsWithComment (ss.map f.elementOf) = f.beforeComment (ss.map Shape.id).head? := by
  cases ss with
  | nil => rfl
  | cons s ss =>
    show (f.elementOf s).kind.isCommentLike = (f.kind s.id).isCommentLike
    rw [kind_elementOf]

/-- A child of a node of the tree, with the siblings after it, is one of the places of the tree. -/
theorem Carries.exists_place {s : Shape} (hs : f.Carries s) {p c : NodeId} (hp : p ∈ s.preorder)
    {pre post : List NodeId} (hsplit : f.children p = pre ++ c :: post) :
    ∃ (d : Shape) (ds : List Shape), d.id = c ∧ ds.map Shape.id = post ∧
      (f.elementOf d, ds.map f.elementOf) ∈ (f.elementOf s).places := by
  induction s using Shape.induct with
  | h i cs ih =>
    obtain ⟨_, hchildren, hcs⟩ := carries_node.mp hs
    rw [elementOf_node, Element.places_eq]
    rw [Shape.preorder_node, List.mem_cons, List.mem_flatMap] at hp
    rcases hp with rfl | ⟨b, hb, hp⟩
    · rw [hchildren] at hsplit
      obtain ⟨xs, ys, rfl, _, hys⟩ := List.map_eq_append_iff.mp hsplit
      obtain ⟨d, ds, rfl, hd, hds⟩ := List.map_eq_cons_iff.mp hys
      refine ⟨d, ds, hd, hds, ?_⟩
      rw [List.map_append, List.map_cons]
      exact Element.split_mem_placesIn _ _ _
    · obtain ⟨d, ds, hd, hds, hplace⟩ := ih b hb (hcs b hb) hp
      exact ⟨d, ds, hd, hds, Element.mem_placesIn_of_mem (List.mem_map_of_mem hb) hplace⟩

/-- `g` has the nodes of `f`, and below each node the children from `f` in their order, among new
ones. -/
structure Grown (f g : Forest) : Prop where
  size_le : f.size ≤ g.size
  children_eq : ∀ p, (g.children p).filter (· < f.size) = f.children p

theorem Broken.ended {c : NodeId} {next : Option NodeId} (h : f.Broken n c next) :
    f.Ended n c next := by
  intro hc hk
  rcases h hc hk with hnewline | ⟨_, hnext⟩
  · left
    rw [← layoutBefore_append_codeFrom (f.tail c).toList, hasNewline_append, hnewline, Bool.true_or]
  · exact Or.inr hnext

/-- `g` has grown out of `f`, and its old markers stand in the relation `R` to their next siblings.
-/
structure KeepsMarkers (R : Forest → Nat → NodeId → Option NodeId → Prop)
    (f g : Forest) : Prop where
  grown : f.Grown g
  markers : ∀ p, EachNext (R g f.size) (g.children p)

theorem kind_setTail (f : Forest) (d : NodeId) (t : String) (c : NodeId) :
    (f.setTail d t).kind c = f.kind c := by
  show Kind.ofTag ((f.setTail d t).tag c) = Kind.ofTag (f.tag c)
  rw [tag_setTail]

theorem tail_setTail (f : Forest) (d : NodeId) (t : String) (c : NodeId) :
    (f.setTail d t).tail c = f.tail c ∨ c = d ∧ (f.setTail d t).tail c = t := by
  rcases f.node_update d (fun n => { n with tail := t }) c with h | ⟨hc, _, h⟩
  · exact Or.inl (congrArg Node.tail h)
  · exact Or.inr ⟨hc, congrArg Node.tail h⟩

theorem layoutBefore_layoutBefore (s : List Char) :
    layoutBefore (layoutBefore s) = layoutBefore s := by
  have h := layoutBefore_append_codeFrom (layoutBefore s)
  rwa [codeFrom_layoutBefore, List.append_nil] at h

/-- Cutting the code off a tail leaves the layout before it. -/
theorem layoutBefore_tail_cut (f : Forest) (d c : NodeId) :
    layoutBefore ((f.setTail d (String.ofList (layoutBefore (f.tail d).toList))).tail c).toList =
      layoutBefore (f.tail c).toList := by
  rcases tail_setTail f d (String.ofList (layoutBefore (f.tail d).toList)) c with h | ⟨rfl, h⟩
  · rw [h]
  · rw [h, String.toList_ofList, layoutBefore_layoutBefore]

/-- Code may be cut off any tail. -/
theorem KeepsMarkers.cut (h : KeepsMarkers Broken f g) (d : NodeId) :
    KeepsMarkers Broken f (g.setTail d (String.ofList (layoutBefore (g.tail d).toList))) := by
  refine ⟨⟨?_, fun p => ?_⟩, fun p => ?_⟩
  · rw [size_setTail]
    exact h.grown.size_le
  · rw [children_setTail]
    exact h.grown.children_eq p
  · rw [children_setTail]
    refine (h.markers p).mono fun c next hbroken hc hk => ?_
    rw [kind_setTail] at hk
    rw [layoutBefore_tail_cut, beforeComment]
    simp only [kind_setTail]
    refine (hbroken hc hk).imp_right fun ⟨hcode, hnext⟩ => ⟨?_, hnext⟩
    rcases tail_setTail g d (String.ofList (layoutBefore (g.tail d).toList)) c
      with htail | ⟨_, htail⟩
    · rw [htail]
      exact hcode
    · rw [htail, String.toList_ofList, codeFrom_layoutBefore]

theorem lt_size_of_isCommentLike {c : NodeId} (h : (f.kind c).isCommentLike = true) :
    c < f.size := by
  by_contra hc
  rw [kind, node_of_le (Nat.le_of_not_lt hc)] at h
  exact absurd h (by decide)

/-! ## Adding a marker -/

variable {m : MarkerDraft} {p d : NodeId} {pre post : List NodeId}

theorem children_insertMarker (hp : m.forest.children p = pre ++ d :: post) (tail : List Char) :
    (m.insertMarker p (pre.length + 1) tail).forest.children p =
      pre ++ d :: m.forest.size :: post := by
  have hlt : p < m.forest.size := lt_size_of_mem_children (j := d) (by simp [hp])
  have hlt' :
      p < (m.forest.add { tag := "cnt", text := "&", tail := String.ofList tail }).size := by
    rw [size_add]
    exact Nat.lt_succ_of_lt hlt
  rw [MarkerDraft.insertMarker, children, node_insertChild_self hlt', node_add_of_lt hlt]
  show (m.forest.children p).take (pre.length + 1) ++ m.forest.size ::
    (m.forest.children p).drop (pre.length + 1) = _
  have hsplit : m.forest.children p = (pre ++ [d]) ++ post := by simp [hp]
  have hlength : (pre ++ [d]).length = pre.length + 1 := by simp
  rw [hsplit, List.take_left' hlength, List.drop_left' hlength]
  simp

theorem children_insertMarker_of_ne {q : NodeId} (hq : q ≠ p) (k : Nat) (tail : List Char) :
    (m.insertMarker p k tail).forest.children q = m.forest.children q := by
  rw [MarkerDraft.insertMarker, children, node_insertChild_of_ne hq]
  exact children_add _ rfl q

/-- A new marker does not change what the other nodes carry. -/
theorem node_insertMarker {q : NodeId} (hq : q < m.forest.size) (k : Nat) (tail : List Char) :
    (m.insertMarker p k tail).forest.kind q = m.forest.kind q ∧
      (m.insertMarker p k tail).forest.tail q = m.forest.tail q := by
  have hnode := node_add_of_lt hq { tag := "cnt", text := "&", tail := String.ofList tail }
  rw [MarkerDraft.insertMarker]
  rcases node_update (m.forest.add { tag := "cnt", text := "&", tail := String.ofList tail }) p
    (fun n => { n with children := n.children.take k ++ m.forest.size :: n.children.drop k }) q with
    h | ⟨_, _, h⟩
  · exact ⟨congrArg Node.kind (h.trans hnode), congrArg Node.tail (h.trans hnode)⟩
  · rw [hnode] at h
    have hkind := congrArg Node.kind h
    have htail := congrArg Node.tail h
    exact ⟨hkind, htail⟩

/-- What is said of an old marker stays true, whatever its next sibling is. -/
theorem Broken.insertMarker {c : NodeId} {next : Option NodeId} {n : Nat}
    (h : m.forest.Broken n c next) (hn : n ≤ m.forest.size) (k : Nat) (tail : List Char) :
    (m.insertMarker p k tail).forest.Broken n c next := by
  intro hc hk
  obtain ⟨hkind, htail⟩ := node_insertMarker (m := m) (p := p) (Nat.lt_of_lt_of_le hc hn) k tail
  rw [hkind] at hk
  rw [htail]
  refine (h hc hk).imp_right fun hnext => ⟨hnext.1, ?_⟩
  cases next with
  | none => cases hnext.2
  | some e =>
    have hlike : (m.forest.kind e).isCommentLike = true := hnext.2
    rw [beforeComment, Option.any_some,
      (node_insertMarker (lt_size_of_isCommentLike hlike) k tail).1]
    exact hlike

/-- A marker may be put after a node that is no old marker, or ends its line by itself. -/
theorem KeepsMarkers.insertMarker (h : KeepsMarkers Broken f m.forest)
    (hp : m.forest.children p = pre ++ d :: post)
    (hd : d < f.size → m.forest.kind d = .continuation →
      Text.hasNewline (layoutBefore (m.forest.tail d).toList) = true) (tail : List Char) :
    KeepsMarkers Broken f (m.insertMarker p (pre.length + 1) tail).forest := by
  have hsize : (m.insertMarker p (pre.length + 1) tail).forest.size = m.forest.size + 1 := by
    simp [MarkerDraft.insertMarker]
  have hle := h.grown.size_le
  have hmono : ∀ q, EachNext ((m.insertMarker p (pre.length + 1) tail).forest.Broken f.size)
      (m.forest.children q) := fun q =>
    (h.markers q).mono fun _ _ hbroken => hbroken.insertMarker hle _ _
  refine ⟨⟨by omega, fun q => ?_⟩, fun q => ?_⟩
  · by_cases hq : q = p
    · subst hq
      rw [children_insertMarker hp, ← h.grown.children_eq q, hp]
      simp [List.filter_cons, Nat.not_lt.mpr hle]
    · rw [children_insertMarker_of_ne hq]
      exact h.grown.children_eq q
  · by_cases hq : q = p
    · subst hq
      rw [children_insertMarker hp]
      refine EachNext.insert (hp ▸ hmono q) ?_ ?_
      · exact Broken.insertMarker (fun hlt hk => Or.inl (hd hlt hk)) hle _ _
      · exact fun hlt => absurd hlt (Nat.not_lt.mpr hle)
    · rw [children_insertMarker_of_ne hq]
      exact hmono q

theorem KeepsMarkers.addBegin (h : KeepsMarkers Broken f m.forest) {c : NodeId}
    {comments rest : List NodeId} (hp : m.forest.children p = pre ++ c :: (comments ++ rest))
    (hcomments : ∀ d ∈ comments, (m.forest.kind d).isCommentLike = true)
    (hrest : m.forest.beforeComment rest.head? = false) (next : Option NodeId) :
    KeepsMarkers Broken f (m.addBegin p pre.length c comments next).forest := by
  have hbroken : m.forest.Broken f.size c (comments ++ rest).head? := by
    have hat := h.markers p
    rw [hp] at hat
    exact hat.at_split
  rw [MarkerDraft.addBegin_eq]
  split
  · rename_i hcode
    have hp' :
        (m.forest.setTail c (String.ofList (layoutBefore (m.forest.tail c).toList))).children p =
        pre ++ c :: (comments ++ rest) := by
      rw [children_setTail, hp]
    refine KeepsMarkers.insertMarker (h.cut c) hp' ?_ _
    intro hlt hk
    rw [kind_setTail] at hk
    rw [layoutBefore_tail_cut]
    rcases hbroken hlt hk with hnewline | ⟨hnil, _⟩
    · exact hnewline
    · rw [hnil] at hcode
      cases hcode
  · split
    · split
      · rename_i hlast
        rw [List.getLast?_eq_none_iff] at hlast
        subst hlast
        refine h.insertMarker hp ?_ _
        intro hlt hk
        rcases hbroken hlt hk with hnewline | ⟨_, hnext⟩
        · exact hnewline
        · rw [List.nil_append, hrest] at hnext
          cases hnext
      · rename_i last hlast
        obtain ⟨init, rfl⟩ := List.getLast?_eq_some_iff.mp hlast
        have hlike : (m.forest.kind last).isCommentLike = true := hcomments last (by simp)
        have hindex : pre.length + 1 + (init ++ [last]).length = (pre ++ c :: init).length + 1 := by
          simp
          omega
        rw [hindex]
        have hp' : (m.forest.setTail last
            (String.ofList (layoutBefore (m.forest.tail last).toList))).children p =
              (pre ++ c :: init) ++ last :: rest := by
          rw [children_setTail, hp]
          simp
        refine KeepsMarkers.insertMarker (h.cut last) hp' ?_ _
        intro _ hk
        rw [kind_setTail] at hk
        rw [hk] at hlike
        cases hlike
    · exact h

theorem drop_of_split {α : Type} {xs pre post : List α} {c : α} (h : xs = pre ++ c :: post) :
    xs.drop (pre.length + 1) = post := by
  rw [h, List.append_cons]
  exact List.drop_left' (by simp)

/-- Every visit that adds begin markers keeps the old markers. -/
theorem KeepsMarkers.reviseChild_addBegin (h : KeepsMarkers Broken f m.forest)
    (hp : m.forest.children p = pre ++ d :: post) :
    KeepsMarkers Broken f (m.reviseChild .addBeginOnly p pre.length d).forest := by
  have hrem : ∀ ends, MarkerOptions.addBeginOnly.removes ends = false := fun _ => rfl
  rw [MarkerDraft.reviseChild]
  split
  · rw [drop_of_split hp]
    simp only [hrem, Bool.false_eq_true, if_false]
    rw [← List.takeWhile_append_dropWhile (p := fun c => (m.forest.kind c).isCommentLike)
      (l := post)]
      at hp
    split
    · refine h.addBegin hp (fun c hc => ?_) ?_ _
      · exact List.mem_takeWhile_imp (p := fun c => (m.forest.kind c).isCommentLike) hc
      · have hhead := List.head?_dropWhile_not (fun c => (m.forest.kind c).isCommentLike) post
        rw [beforeComment]
        cases hrest : (post.dropWhile fun c => (m.forest.kind c).isCommentLike).head? with
        | none => rfl
        | some r =>
          rw [hrest] at hhead
          exact hhead
    · exact h
  · exact h

/-! ## Removing a marker -/

/-- A store with the same children and kinds and with newlines where they were. -/
theorem KeepsMarkers.congr {g' : Forest} (h : KeepsMarkers Ended f g) (hsize : g'.size = g.size)
    (hchildren : ∀ q, g'.children q = g.children q) (hkind : ∀ q, g'.kind q = g.kind q)
    (hnewline : ∀ q, Text.hasNewline (g.tail q).toList = true →
      Text.hasNewline (g'.tail q).toList = true) : KeepsMarkers Ended f g' := by
  refine ⟨⟨?_, fun q => ?_⟩, fun q => ?_⟩
  · rw [hsize]
    exact h.grown.size_le
  · rw [hchildren]
    exact h.grown.children_eq q
  · rw [hchildren]
    refine (h.markers q).mono fun c next hended hc hk => ?_
    rw [hkind] at hk
    rw [beforeComment]
    simp only [hkind]
    exact (hended hc hk).imp_left (hnewline c)

theorem KeepsMarkers.setTail_append (h : KeepsMarkers Ended f g) (d : NodeId) (t : String) :
    KeepsMarkers Ended f (g.setTail d (g.tail d ++ t)) := by
  refine h.congr (size_setTail _ _ _) (fun q => children_setTail) (kind_setTail g d _)
    fun q hq => ?_
  rcases tail_setTail g d (g.tail d ++ t) q with htail | ⟨rfl, htail⟩
  · rw [htail]
    exact hq
  · rw [htail, String.toList_append, hasNewline_append, hq, Bool.true_or]

theorem KeepsMarkers.setText (h : KeepsMarkers Ended f g) (d : NodeId) (t : String) :
    KeepsMarkers Ended f (g.setText d t) := by
  have hnode : ∀ q, (g.setText d t).kind q = g.kind q ∧ (g.setText d t).tail q = g.tail q := by
    intro q
    rcases g.node_update d (fun n => { n with text := t }) q with hq | ⟨_, _, hq⟩
    · exact ⟨congrArg Node.kind hq, congrArg Node.tail hq⟩
    · have hkind := congrArg Node.kind hq
      have htail := congrArg Node.tail hq
      exact ⟨hkind, htail⟩
  refine h.congr (size_setText _ _ _) (fun q => children_setText) (fun q => (hnode q).1)
    fun q hq => ?_
  rw [(hnode q).2]
  exact hq

/-- What a removed marker leaves may be put before it. -/
theorem KeepsMarkers.appendBefore (h : KeepsMarkers Ended f g) (p : NodeId) (k : Nat) (t : String) :
    KeepsMarkers Ended f (g.appendBefore p k t) := by
  cases k with
  | zero => exact h.setText _ _
  | succ k =>
    rw [Forest.appendBefore]
    split
    · exact h.setTail_append _ _
    · exact h

theorem node_detach (hp : p < g.size) (d q : NodeId) :
    (g.detach p d).kind q = g.kind q ∧ (g.detach p d).tail q = g.tail q := by
  by_cases hq : q = p
  · subst hq
    rw [Forest.kind, Forest.tail, node_detach_self hp]
    exact ⟨rfl, rfl⟩
  · exact ⟨congrArg Node.kind (node_detach_of_ne hq d), congrArg Node.tail (node_detach_of_ne hq d)⟩

theorem Ended.detach {c : NodeId} {next : Option NodeId} (h : g.Ended n c next) (hp : p < g.size)
    (d : NodeId) : (g.detach p d).Ended n c next := by
  rw [Ended, (node_detach hp d c).1, (node_detach hp d c).2, beforeComment]
  simp only [fun q => (node_detach hp d q).1]
  exact h

/-- A new marker may be taken out. -/
theorem KeepsMarkers.detach (h : KeepsMarkers Ended f g) (hd : f.size ≤ d)
    (hk : g.kind d = .continuation) (hp : d ∈ g.children p) :
    KeepsMarkers Ended f (g.detach p d) := by
  have hlt := lt_size_of_mem_children hp
  have hself : (g.detach p d).children p = (g.children p).erase d :=
    congrArg Node.children (node_detach_self hlt d)
  have hother : ∀ q, q ≠ p → (g.detach p d).children q = g.children q := fun q hq =>
    congrArg Node.children (node_detach_of_ne hq d)
  have hmono : ∀ q, EachNext ((g.detach p d).Ended f.size) (g.children q) := fun q =>
    (h.markers q).mono fun _ _ hended => hended.detach hlt d
  obtain ⟨before, after, _, hsplit, herase⟩ := List.exists_erase_eq hp
  refine ⟨⟨?_, fun q => ?_⟩, fun q => ?_⟩
  · rw [size_detach]
    exact h.grown.size_le
  · by_cases hq : q = p
    · subst hq
      rw [hself, herase, ← h.grown.children_eq q, hsplit]
      simp [Nat.not_lt.mpr hd]
    · rw [hother q hq]
      exact h.grown.children_eq q
  · by_cases hq : q = p
    · subst hq
      have heach := hmono q
      rw [hsplit] at heach
      rw [hself, herase]
      -- An old marker before the new one ends its line by itself: the new one is no comment.
      refine heach.remove fun c hc hlt' hk' => Or.inl ?_
      rcases hc hlt' hk' with hnewline | hcomment
      · exact hnewline
      · rw [beforeComment, Option.any_some, (node_detach hlt d d).1, hk] at hcomment
        cases hcomment
    · rw [hother q hq]
      exact hmono q

/-- Every visit that removes begin markers keeps the old markers. -/
theorem KeepsMarkers.reviseChild_removeBegin (h : KeepsMarkers Ended f m.forest)
    (hp : m.forest.children p = pre ++ d :: post) :
    KeepsMarkers Ended f (m.reviseChild .removeBeginOnly p pre.length d).forest := by
  have hended : m.forest.Ended f.size d post.head? := by
    have hat := h.markers p
    rw [hp] at hat
    exact hat.at_split
  rw [MarkerDraft.reviseChild]
  split
  · rename_i hk
    have hk : m.forest.kind d = .continuation := beq_iff_eq.mp hk
    have hadd : MarkerOptions.removeBeginOnly.addBegin = false := rfl
    rw [drop_of_split hp]
    simp only [hadd, Bool.and_false, Bool.false_eq_true, if_false]
    split
    · rename_i hrem
      obtain ⟨hnewline, hcomments⟩ : Text.hasNewline (m.forest.tail d).toList = false ∧
          post.takeWhile (fun c => (m.forest.kind c).isCommentLike) = [] := by
        simpa [MarkerOptions.removes, MarkerOptions.removeBeginOnly] using hrem
      rw [hcomments]
      -- It ends no line, so it is not one of the old markers.
      have hd : f.size ≤ d := by
        by_contra hlt
        rcases hended (Nat.lt_of_not_le hlt) hk with hbreak | hcomment
        · rw [hnewline] at hbreak
          cases hbreak
        · cases post with
          | nil => cases hcomment
          | cons c post =>
            have hlike : (m.forest.kind c).isCommentLike = true := hcomment
            rw [List.takeWhile_cons_of_pos (by exact hlike)] at hcomments
            cases hcomments
      exact (h.detach hd hk (by simp [hp])).appendBefore _ _ _
    · exact h
  · exact h

/-! ## Both passes -/

theorem KeepsMarkers.revise_addBegin (h : KeepsMarkers Broken f m.forest) (i : NodeId) :
    KeepsMarkers Broken f (MarkerDraft.revise .addBeginOnly i m).forest :=
  MarkerDraft.reviseWithin_induct (P := fun m => KeepsMarkers Broken f m.forest)
    (Q := fun _ => True)
    (fun _ _ _ _ _ hm _ hp => ⟨hm.reviseChild_addBegin hp, trivial⟩) _ h trivial

theorem KeepsMarkers.revise_removeBegin (h : KeepsMarkers Ended f m.forest) (i : NodeId) :
    KeepsMarkers Ended f (MarkerDraft.revise .removeBeginOnly i m).forest :=
  MarkerDraft.reviseWithin_induct (P := fun m => KeepsMarkers Ended f m.forest) (Q := fun _ => True)
    (fun _ _ _ _ _ hm _ hp => ⟨hm.reviseChild_removeBegin hp, trivial⟩) _ h trivial

/-- So the old children of every node are there after both. -/
theorem grown_add_remove (h : KeepsMarkers Broken f f) (i : NodeId) :
    f.Grown (MarkerDraft.revise .removeBeginOnly i
      { forest := (MarkerDraft.revise .addBeginOnly i { forest := f }).forest }).forest := by
  have hadded := KeepsMarkers.revise_addBegin (m := { forest := f }) h i
  have hended : KeepsMarkers Ended f (MarkerDraft.revise .addBeginOnly i { forest := f }).forest :=
    ⟨hadded.grown, fun p => (hadded.markers p).mono fun _ _ => Broken.ended⟩
  exact (KeepsMarkers.revise_removeBegin
    (m := { forest := (MarkerDraft.revise .addBeginOnly i { forest := f }).forest }) hended i).grown

/-! ## The store of an element -/

/-- In a tidy tree in which every marker ends its line, it ends it in the layout of its own tail or
before a comment. -/
theorem keepsMarkers_ofElement {e : Element} (htidy : e.Tidy) (hends : e.EndsLines) :
    KeepsMarkers Broken (ofElement e) (ofElement e) := by
  have hcarries := (holds_ofElement e).carries
  have htree : ∀ p c, c ∈ (ofElement e).children p → p ∈ (e.shapeFrom 0).preorder := fun p c hc =>
    mem_preorder_of_lt (lt_size_of_mem_children hc)
  refine ⟨⟨Nat.le_refl _, fun p => ?_⟩,
    fun p => EachNext.of_splits fun pre c post hsplit hc hk => ?_⟩
  · rw [List.filter_eq_self]
    intro c hc
    rw [decide_eq_true_eq]
    exact hcarries.mem_lt c (hcarries.mem_of_child (htree p c hc) hc)
  · have hmem : c ∈ (ofElement e).children p := by
      rw [hsplit]
      exact List.mem_append_right _ List.mem_cons_self
    obtain ⟨d, ds, rfl, rfl, hplace⟩ := hcarries.exists_place (htree p c hmem) hsplit
    rw [elementOf_ofElement] at hplace
    obtain ⟨hline, hcomment⟩ := htidy _ hplace
    have hend := hends _ hplace
    rw [Element.EndsLineAt, kind_elementOf, tail_elementOf, Element.endsLine_eq,
      startsWithComment_map_elementOf] at hend
    rw [kind_elementOf, tail_elementOf] at hline hcomment
    rw [startsWithComment_map_elementOf] at hcomment
    have hlayout := hasNewline_layoutBefore (hline (Or.inl hk))
    rcases Bool.or_eq_true_iff.mp (hend hk) with hnewline | hnext
    · exact Or.inl (hlayout.trans hnewline)
    · refine Or.inr ⟨?_, hnext⟩
      by_contra hcode
      rw [hcomment hk hcode] at hnext
      cases hnext

end Forest

end FortranLayout
