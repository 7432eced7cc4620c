import FortranLayout.Proofs.IfConstructs.Balance
import FortranLayout.Proofs.IfConstructs.Step

/-!
# The conversions of a tree

The nodes that were one-line IFs at the beginning are visited in document order. `Forest.Converted`
is what is known when all of the nodes below some shapes have been visited: each shape has become
another one, which denotes the converted element. A statement that is converted is replaced, among
the shapes still to be visited, by its pieces (`Forest.exists_converted`); some of them are in the
tree no more, and are visited and counted all the same.

* `characters_convertIfStatements` compares the characters before and after.
-/

namespace FortranLayout

open Forest (thenTail)
open Text (lineBreak)

namespace Forest

variable {f f₁ g : Forest} {s t : Shape} {ss ps rest xs : List Shape} {F : Shape → Shape}
  {q : IfParts Shape} {level : Nat}

/-! ## Shapes held together -/

/-- The store carries the shapes, and no node occurs twice in them. -/
structure HoldsAll (f : Forest) (ss : List Shape) : Prop where
  carries : ∀ s ∈ ss, f.Carries s
  nodup : (ss.flatMap Shape.preorder).Nodup

namespace HoldsAll

theorem head (h : f.HoldsAll (s :: rest)) : f.Holds s := by
  have hn := h.nodup
  rw [List.flatMap_cons, List.nodup_append'] at hn
  exact ⟨h.carries s List.mem_cons_self, hn.1⟩

theorem carries_rest (h : f.HoldsAll (s :: rest)) : ∀ r ∈ rest, f.Carries r :=
  fun r hr => h.carries r (List.mem_cons_of_mem _ hr)

theorem disjoint (h : f.HoldsAll (s :: rest)) :
    List.Disjoint s.preorder (rest.flatMap Shape.preorder) := by
  have hn := h.nodup
  rw [List.flatMap_cons] at hn
  exact List.disjoint_of_nodup_append hn

/-- An edit of the first shape leaves the nodes of the others alone. -/
theorem node_rest (h : f.HoldsAll (s :: rest))
    (hframe : ∀ j : Nat, j < f.size → j ∉ s.preorder → f₁.node j = f.node j) {r : Shape}
    (hr : r ∈ rest) {j : Nat} (hj : j ∈ r.preorder) : f₁.node j = f.node j :=
  hframe j ((h.carries_rest r hr).mem_lt j hj) fun hs =>
    h.disjoint hs (List.mem_flatMap.mpr ⟨r, hr, hj⟩)

end HoldsAll

/-! ## Visited shapes -/

/-- The stores before and after the visits to the nodes of the shapes `ss`. What has become of a
shape is given by `F`. -/
structure Converted (f g : Forest) (ss : List Shape) (F : Shape → Shape) : Prop where
  size_le : f.size ≤ g.size
  frame : ∀ j : Nat, j < f.size → j ∉ ss.flatMap Shape.preorder → g.node j = f.node j
  holds : ∀ s ∈ ss, g.Holds (F s)
  id_eq : ∀ s ∈ ss, (F s).id = s.id
  fresh : ∀ s ∈ ss, ∀ j : Nat, j ∈ (F s).preorder → j ∈ s.preorder ∨ f.size ≤ j
  apart : ∀ s ∈ ss, ∀ t ∈ ss, s ≠ t → List.Disjoint (F s).preorder (F t).preorder
  converts : ∀ s ∈ ss, (f.elementOf s).Converts (g.elementOf (F s))

namespace Converted

theorem map_id (h : Converted f g ss F) (hx : ∀ x ∈ xs, x ∈ ss) :
    (xs.map F).map Shape.id = xs.map Shape.id := by
  rw [List.map_map]
  exact List.map_congr_left fun x hm => h.id_eq x (hx x hm)

theorem forall₂ (h : Converted f g ss F) (hx : ∀ x ∈ xs, x ∈ ss) :
    List.Forall₂ Element.Converts (xs.map f.elementOf) ((xs.map F).map g.elementOf) := by
  rw [List.map_map, List.forall₂_map_left_iff, List.forall₂_map_right_iff, List.forall₂_same]
  exact fun x hm => h.converts x (hx x hm)

theorem nodup_flatMap (h : Converted f g ss F) (hx : ∀ x ∈ xs, x ∈ ss) (hn : xs.Nodup) :
    ((xs.map F).flatMap Shape.preorder).Nodup := by
  rw [List.nodup_flatMap]
  constructor
  · intro t ht
    obtain ⟨x, hm, rfl⟩ := List.mem_map.mp ht
    exact (h.holds x (hx x hm)).nodup
  · rw [List.pairwise_map]
    exact hn.imp_of_mem fun ha hb hne => h.apart _ (hx _ ha) _ (hx _ hb) hne

/-- What shapes have become has no node of the store from before but their own. -/
theorem not_mem_flatMap (h : Converted f g ss F) (hx : ∀ x ∈ xs, x ∈ ss) {j : Nat} (hj : j < f.size)
    (hjx : ∀ x ∈ xs, j ∉ x.preorder) : j ∉ (xs.map F).flatMap Shape.preorder := by
  intro hm
  obtain ⟨t, ht, hjt⟩ := List.mem_flatMap.mp hm
  obtain ⟨x, hxm, rfl⟩ := List.mem_map.mp ht
  rcases h.fresh x (hx x hxm) j hjt with hjt | hjt
  · exact hjx x hxm hjt
  · omega

/-- A relation of shapes to what they have become, when the first of them has become `t`. -/
theorem forall_mem_cons_ite {P : Shape → Shape → Prop}
    (hrest : ∀ r ∈ rest, r.id ≠ s.id) (hs : P s t)
    (h : ∀ r ∈ rest, P r (F r)) : ∀ x ∈ s :: rest, P x (if x.id = s.id then t else F x) := by
  rw [List.forall_mem_cons]
  refine ⟨by rwa [if_pos rfl], fun r hr => ?_⟩
  rw [if_neg (hrest r hr)]
  exact h r hr

/-- What the first shape has become, if it is made of nodes of its own and of what its pieces have
become, has no node in common with what a later shape has become. -/
theorem disjoint_made (h : Converted f₁ g (ps ++ rest) F) (hss : f.HoldsAll (s :: rest))
    (hps : ∀ p ∈ ps, ∀ j : Nat, j ∈ p.preorder → j ∈ s.preorder)
    (hmade : ∀ j : Nat, j ∈ t.preorder →
      j < f₁.size ∧ (j ∈ s.preorder ∨ f.size ≤ j) ∨ ∃ p ∈ ps, j ∈ (F p).preorder) :
    ∀ r ∈ rest, List.Disjoint t.preorder (F r).preorder := by
  intro r hr j hjt hjr
  have hmem : r ∈ ps ++ rest := List.mem_append_right _ hr
  rcases hmade j hjt with ⟨hlt, hold⟩ | ⟨p, hp, hjp⟩
  · rcases h.fresh r hmem j hjr with hj | hj
    · rcases hold with hs | hs
      · exact hss.disjoint hs (List.mem_flatMap.mpr ⟨r, hr, hj⟩)
      · have := (hss.carries_rest r hr).mem_lt j hj
        omega
    · omega
  · refine h.apart p (List.mem_append_left _ hp) r hmem (fun he => ?_) hjp hjr
    exact hss.disjoint (hps p hp _ p.id_mem_preorder) (he ▸ Shape.id_mem_flatMap hr)

/-- One more shape: its pieces are among those visited, and what it has become is made of what these
have become and of nodes that were there before. -/
theorem cons (h : Converted f₁ g (ps ++ rest) F) (hss : f.HoldsAll (s :: rest))
    (hsize : f.size ≤ f₁.size)
    (hframe : ∀ j : Nat, j < f.size → j ∉ s.preorder → f₁.node j = f.node j)
    (hps : ∀ p ∈ ps, ∀ j : Nat, j ∈ p.preorder → j ∈ s.preorder)
    (ht : g.Holds t) (hid : t.id = s.id)
    (hmade : ∀ j : Nat, j ∈ t.preorder →
      j < f₁.size ∧ (j ∈ s.preorder ∨ f.size ≤ j) ∨ ∃ p ∈ ps, j ∈ (F p).preorder)
    (hconv : (f.elementOf s).Converts (g.elementOf t)) :
    Converted f g (s :: rest) fun x => if x.id = s.id then t else F x := by
  have hrest : ∀ r ∈ rest, r.id ≠ s.id := fun r hr he =>
    hss.disjoint s.id_mem_preorder (he ▸ Shape.id_mem_flatMap hr)
  have hmem : ∀ r ∈ rest, r ∈ ps ++ rest := fun r hr => List.mem_append_right _ hr
  have hapart := h.disjoint_made hss hps hmade
  have hfresh : ∀ j : Nat, j ∈ t.preorder → j ∈ s.preorder ∨ f.size ≤ j := by
    intro j hj
    rcases hmade j hj with ⟨_, hold⟩ | ⟨p, hp, hjp⟩
    · exact hold
    · exact (h.fresh p (List.mem_append_left _ hp) j hjp).imp (hps p hp j) (Nat.le_trans hsize)
  constructor
  case size_le => exact Nat.le_trans hsize h.size_le
  case frame =>
    intro j hj hm
    rw [List.flatMap_cons, List.mem_append, not_or] at hm
    rw [h.frame j (by omega), hframe j hj hm.1]
    rw [List.flatMap_append, List.mem_append, not_or]
    refine ⟨fun hjp => ?_, hm.2⟩
    obtain ⟨p, hp, hjp⟩ := List.mem_flatMap.mp hjp
    exact hm.1 (hps p hp j hjp)
  case holds =>
    exact forall_mem_cons_ite (P := fun _ u => g.Holds u) hrest ht fun r hr => h.holds r (hmem r hr)
  case id_eq =>
    exact forall_mem_cons_ite (P := fun r u => u.id = r.id) hrest hid fun r hr =>
      h.id_eq r (hmem r hr)
  case fresh =>
    refine forall_mem_cons_ite
      (P := fun r u => ∀ j : Nat, j ∈ u.preorder → j ∈ r.preorder ∨ f.size ≤ j) hrest
      hfresh fun r hr j hj => ?_
    exact (h.fresh r (hmem r hr) j hj).imp_right (Nat.le_trans hsize)
  case apart =>
    -- both shapes are looked up in the table
    refine forall_mem_cons_ite (P := fun a u => ∀ b ∈ s :: rest, a ≠ b → List.Disjoint u.preorder
      (if b.id = s.id then t else F b).preorder) hrest ?_ fun a ha => ?_
    · exact forall_mem_cons_ite (P := fun b v => s ≠ b → List.Disjoint t.preorder v.preorder) hrest
        (absurd rfl) fun b hb _ => hapart b hb
    · exact forall_mem_cons_ite
        (P := fun b v => a ≠ b → List.Disjoint (F a).preorder v.preorder) hrest
        (fun _ => (hapart a ha).symm) fun b hb => h.apart a (hmem a ha) b (hmem b hb)
  case converts =>
    refine forall_mem_cons_ite (P := fun r u => (f.elementOf r).Converts (g.elementOf u)) hrest
      hconv fun r hr => ?_
    rw [← elementOf_congr fun j hj => hss.node_rest hframe hr hj]
    exact h.converts r (hmem r hr)

/-- A shape whose top is left as it is. -/
theorem keep {i : Nat} {cs : List Shape} (h : Converted f g (cs ++ rest) F)
    (hss : f.HoldsAll (.node i cs :: rest))
    (hnone : (f.elementOf (.node i cs)).conversion? = none) :
    Converted f g (.node i cs :: rest) fun x => if x.id = i then .node i (cs.map F) else F x := by
  obtain ⟨hi, hchildren, _, hics, hncs⟩ := holds_node.mp hss.head
  have hcs : ∀ c ∈ cs, c ∈ cs ++ rest := fun c hc => List.mem_append_left _ hc
  have hirest : i ∉ rest.flatMap Shape.preorder := hss.disjoint (by simp)
  have htop : g.node i = f.node i := by
    refine h.frame i hi ?_
    rw [List.flatMap_append, List.mem_append, not_or]
    exact ⟨hics, hirest⟩
  have hnodup : cs.Nodup := (Shape.nodup_map_id hncs).of_map
  refine h.cons hss (Nat.le_refl _) (fun _ _ _ => rfl) ?_
    (holds_node.mpr ⟨?_, ?_, ?_, ?_, ?_⟩) rfl ?_ ?_
  · exact fun c hc _ hj => Shape.preorder_subset i hc hj
  · exact Nat.lt_of_lt_of_le hi h.size_le
  · rw [h.map_id hcs, ← hchildren]
    exact congrArg Node.children htop
  · intro t ht
    obtain ⟨c, hc, rfl⟩ := List.mem_map.mp ht
    exact (h.holds c (hcs c hc)).carries
  · exact h.not_mem_flatMap hcs hi fun c hc hic => hics (List.mem_flatMap.mpr ⟨c, hc, hic⟩)
  · exact h.nodup_flatMap hcs hnodup
  · intro j hj
    rw [Shape.preorder_node, List.mem_cons, List.mem_flatMap] at hj
    rcases hj with rfl | ⟨t, ht, hjt⟩
    · exact Or.inl ⟨hi, Or.inl (by simp)⟩
    · obtain ⟨c, hc, rfl⟩ := List.mem_map.mp ht
      exact Or.inr ⟨c, hc, hjt⟩
  · have hconv := Element.Converts.keep hnone (by rw [elementOf_node]; exact h.forall₂ hcs)
    rw [elementOf_node] at hconv
    have hg : g.elementOf (.node i (cs.map F)) =
        ⟨f.tag i, f.text i, f.tail i, (cs.map F).map g.elementOf⟩ := by
      rw [elementOf_node, tag, text, tail, htop]
      rfl
    rw [hg, elementOf_node]
    exact hconv

end Converted

/-! ## The shape of a construct -/

/-- The shape of the construct at node `i`, the nodes made for it numbered from `n`. -/
def constructShape (i n : Nat) (others : List Shape) (condition statement : Shape) : Shape :=
  .node i (others ++ [.node n [.node (n + 1) [condition], statement, .node (n + 2) []]])

theorem perm_preorder_constructShape (i n : Nat) (os : List Shape) (c st : Shape) :
    (constructShape i n os c st).preorder.Perm
      (i :: n :: (n + 1) :: (n + 2) :: (c :: st :: os).flatMap Shape.preorder) := by
  rw [constructShape, Shape.preorder_node]
  refine List.Perm.cons _ (List.perm_iff_count.mpr fun j => ?_)
  simp only [List.flatMap_append, List.flatMap_cons, List.flatMap_nil, List.append_nil,
    Shape.preorder_node, List.count_append, List.count_cons, List.count_nil]
  omega

section ConstructShape

variable {i n : Nat} {os : List Shape} {c st : Shape}

theorem nodup_constructShape (hi : i < n) (hn : ((c :: st :: os).flatMap Shape.preorder).Nodup)
    (hnew : ∀ j : Nat, j < n + 3 → j = i ∨ n ≤ j → j ∉ (c :: st :: os).flatMap Shape.preorder) :
    (constructShape i n os c st).preorder.Nodup := by
  have h₁ : i ≠ n := by omega
  have h₂ : i ≠ n + 1 := by omega
  have h₃ : i ≠ n + 2 := by omega
  rw [(perm_preorder_constructShape i n os c st).nodup_iff]
  simp only [List.nodup_cons, List.mem_cons, not_or]
  refine ⟨⟨h₁, h₂, h₃, hnew i (by omega) (Or.inl rfl)⟩,
    ⟨Nat.ne_of_lt (by omega), Nat.ne_of_lt (by omega), hnew n (by omega) (Or.inr (by omega))⟩,
    ⟨Nat.ne_of_lt (by omega), hnew (n + 1) (by omega) (Or.inr (by omega))⟩,
    hnew (n + 2) (by omega) (Or.inr (by omega)), hn⟩

theorem carries_constructShape (hi : i < g.size) (hn : n + 2 < g.size)
    (htop : g.children i = os.map Shape.id ++ [n])
    (hblock : g.children n = [n + 1, st.id, n + 2]) (hheader : g.children (n + 1) = [c.id])
    (hclosing : g.children (n + 2) = []) (hos : ∀ o ∈ os, g.Carries o) (hc : g.Carries c)
    (hst : g.Carries st) : g.Carries (constructShape i n os c st) := by
  have hheader' : g.Carries (.node (n + 1) [c]) :=
    carries_node.mpr ⟨by omega, by simp [hheader], by simpa using hc⟩
  have hclosing' : g.Carries (.node (n + 2) []) :=
    carries_node.mpr ⟨hn, by simp [hclosing], by simp⟩
  have hblock' : g.Carries (.node n [.node (n + 1) [c], st, .node (n + 2) []]) := by
    refine carries_node.mpr ⟨by omega, by simp [hblock], ?_⟩
    simp only [List.forall_mem_cons]
    exact ⟨hheader', hst, hclosing', by simp⟩
  refine carries_node.mpr ⟨hi, by simp [htop], ?_⟩
  rw [List.forall_mem_append]
  exact ⟨hos, by simpa using hblock'⟩

theorem elementOf_constructShape {text tail : String}
    (htop : g.node i = ⟨"if-construct", "", tail, os.map Shape.id ++ [n]⟩)
    (hblock : g.node n = ⟨"if-block", "", "", [n + 1, st.id, n + 2]⟩)
    (hheader : g.node (n + 1) = ⟨"if-then-stmt", text, lineBreak (level + 2), [c.id]⟩)
    (hclosing : g.node (n + 2) = ⟨"end-if-stmt", "END IF", "", []⟩) :
    g.elementOf (constructShape i n os c st) =
      Element.ifConstruct text tail level (os.map g.elementOf) (g.elementOf c)
        (g.elementOf st) := by
  simp [constructShape, Element.ifConstruct, tag, Forest.text, Forest.tail, htop, hblock, hheader,
    hclosing]

end ConstructShape

/-- The nodes of a construct that are its own are not among those still to be visited. -/
theorem HoldsAll.not_mem_pieces {found : List Shape} (hss : f.HoldsAll (s :: rest))
    (hq : q.FoundIn (fun x => f.kind x.id) Shape.children s found) {j : Nat}
    (hj : j = s.id ∨ f.size ≤ j) : j ∉ (pieces s q ++ rest).flatMap Shape.preorder := by
  rw [List.flatMap_append, List.mem_append, not_or]
  constructor
  · intro hm
    obtain ⟨hlt, hne, _⟩ := node_of_pieces hss.head hq hm
    omega
  · intro hm
    rcases hj with rfl | hj
    · exact hss.disjoint s.id_mem_preorder hm
    · obtain ⟨r, hr, hm⟩ := List.mem_flatMap.mp hm
      have := (hss.carries_rest r hr).mem_lt j hm
      omega

/-- The construct's own nodes are not touched by the visits to its pieces. -/
theorem Constructed.nodes_after {found : List Shape} (hss : f.HoldsAll (s :: rest))
    (hq : q.FoundIn (fun x => f.kind x.id) Shape.children s found)
    (hstep : f.Constructed f₁ s q level)
    (hframe : ∀ j : Nat, j < f₁.size → j ∉ (pieces s q ++ rest).flatMap Shape.preorder →
      g.node j = f₁.node j) :
    g.node s.id = ⟨"if-construct", "", f.tail s.id, q.others.map Shape.id ++ [f.size]⟩ ∧
      g.node f.size = ⟨"if-block", "", "", [f.size + 1, q.statement.id, f.size + 2]⟩ ∧
      g.node (f.size + 1) = ⟨"if-then-stmt", f.text s.id, lineBreak (level + 2), [q.condition.id]⟩ ∧
      g.node (f.size + 2) = ⟨"end-if-stmt", "END IF", "", []⟩ := by
  have hsize := hstep.size_eq
  have hi := hss.head.carries.mem_lt s.id s.id_mem_preorder
  have hkeep : ∀ j : Nat, j < f₁.size → j = s.id ∨ f.size ≤ j → g.node j = f₁.node j :=
    fun j hlt hj => hframe j hlt (hss.not_mem_pieces hq hj)
  exact ⟨(hkeep s.id (by omega) (Or.inl rfl)).trans hstep.top,
    (hkeep f.size (by omega) (Or.inr (by omega))).trans hstep.block,
    (hkeep (f.size + 1) (by omega) (Or.inr (by omega))).trans hstep.header,
    (hkeep (f.size + 2) (by omega) (Or.inr (by omega))).trans hstep.closing⟩

namespace Converted

variable {found : List Shape} (hss : f.HoldsAll (s :: rest))
  (hq : q.FoundIn (fun x => f.kind x.id) Shape.children s found)
  (hstep : f.Constructed f₁ s q level)
  (h : Converted f₁ g (pieces s q ++ rest) F)
include hss hq hstep h

/-- The construct's own nodes, with what has become of its parts below them. -/
theorem nodes_construct :
    g.node s.id = ⟨"if-construct", "", f.tail s.id, (q.others.map F).map Shape.id ++ [f.size]⟩ ∧
      g.node f.size = ⟨"if-block", "", "", [f.size + 1, (F q.statement).id, f.size + 2]⟩ ∧
      g.node (f.size + 1) =
        ⟨"if-then-stmt", f.text s.id, lineBreak (level + 2), [(F q.condition).id]⟩ ∧
      g.node (f.size + 2) = ⟨"end-if-stmt", "END IF", "", []⟩ := by
  have hpart {x : Shape} (hx : x ∈ pieces s q) := List.mem_append_left rest hx
  rw [h.map_id fun o ho => hpart (mem_pieces_others hss.head hq ho),
    h.id_eq _ (hpart (mem_pieces_statement hss.head hq)),
    h.id_eq _ (hpart (mem_pieces_condition hss.head hq))]
  exact hstep.nodes_after hss hq h.frame

theorem holds_construct :
    g.Holds (constructShape s.id f.size (q.others.map F) (F q.condition) (F q.statement)) := by
  have hparts : ∀ x ∈ q.condition :: q.statement :: q.others, x ∈ pieces s q ++ rest :=
    fun x hx => List.mem_append_left _ (mem_pieces_parts hss.head hq x hx)
  have hcarries : ∀ x ∈ q.condition :: q.statement :: q.others, g.Carries (F x) :=
    fun x hx => (h.holds x (hparts x hx)).carries
  have hsize := hstep.size_eq
  have hsizes := h.size_le
  have hi := hss.head.carries.mem_lt s.id s.id_mem_preorder
  obtain ⟨htop, hblock, hheader, hclosing⟩ := h.nodes_construct hss hq hstep
  constructor
  · simp only [List.forall_mem_cons] at hcarries
    obtain ⟨hcondition, hstatement, hothers⟩ := hcarries
    exact carries_constructShape (by omega) (by omega) (congrArg Node.children htop)
      (congrArg Node.children hblock) (congrArg Node.children hheader)
      (congrArg Node.children hclosing) (List.forall_mem_map.mpr hothers) hcondition hstatement
  · have hids : ((q.condition :: q.statement :: q.others).map Shape.id).Nodup :=
      nodup_part_ids hss.head hq
    refine nodup_constructShape hi (h.nodup_flatMap hparts hids.of_map) fun j hlt hj => ?_
    refine h.not_mem_flatMap hparts (by omega) fun x hx hjx => ?_
    exact hss.not_mem_pieces hq hj (List.mem_flatMap.mpr ⟨x, hparts x hx, hjx⟩)

theorem converts_construct (hsome : (f.elementOf s).conversion? = some (q.map f.elementOf)) :
    (f.elementOf s).Converts
      (g.elementOf
        (constructShape s.id f.size (q.others.map F) (F q.condition) (F q.statement))) := by
  have hf := hss.head
  have hpart {x : Shape} (hx : x ∈ pieces s q) := List.mem_append_left rest hx
  have hcondition := h.converts _ (hpart (mem_pieces_condition hf hq))
  have hstatement := h.converts _ (hpart (mem_pieces_statement hf hq))
  have hothers := h.forall₂ fun o ho => hpart (mem_pieces_others hf hq ho)
  rw [hstep.elementOf_condition hf hq] at hcondition
  rw [hstep.elementOf_statement hf hq] at hstatement
  rw [List.map_congr_left fun o ho => hstep.elementOf_other hf hq ho] at hothers
  obtain ⟨htop, hblock, hheader, hclosing⟩ := h.nodes_construct hss hq hstep
  rw [elementOf_constructShape htop hblock hheader hclosing, ← text_elementOf, ← tail_elementOf]
  exact Element.Converts.convert level hsome hcondition hstatement hothers

/-- A statement at the top that is converted. -/
theorem convert (hsome : (f.elementOf s).conversion? = some (q.map f.elementOf)) :
    Converted f g (s :: rest) fun x =>
      if x.id = s.id then
        constructShape s.id f.size (q.others.map F) (F q.condition) (F q.statement)
      else F x := by
  have hf := hss.head
  have hsize := hstep.size_eq
  have hi := hf.carries.mem_lt s.id s.id_mem_preorder
  refine h.cons hss (by omega) (fun j hj hm => hstep.node_outside hf hq hj hm)
    (fun p hp j hj => mem_preorder_of_piece hf hq hp hj) (h.holds_construct hss hq hstep) rfl
    (fun j hj => ?_) (h.converts_construct hss hq hstep hsome)
  -- A node of the construct is its own, or is in what a part has become.
  rw [(perm_preorder_constructShape _ _ _ _ _).mem_iff, List.mem_cons, List.mem_cons, List.mem_cons,
    List.mem_cons] at hj
  rcases hj with rfl | rfl | rfl | rfl | hj
  · exact Or.inl ⟨by omega, Or.inl s.id_mem_preorder⟩
  · exact Or.inl ⟨by omega, Or.inr (by omega)⟩
  · exact Or.inl ⟨by omega, Or.inr (by omega)⟩
  · exact Or.inl ⟨by omega, Or.inr (by omega)⟩
  · have hj' : j ∈ ((q.condition :: q.statement :: q.others).map F).flatMap Shape.preorder := hj
    obtain ⟨t, ht, hjt⟩ := List.mem_flatMap.mp hj'
    obtain ⟨x, hx, rfl⟩ := List.mem_map.mp ht
    exact Or.inr ⟨x, mem_pieces_parts hf hq x hx, hjt⟩

end Converted

/-! ## The run -/

theorem filter_pieces {P : Nat → Bool} (hP : P q.action.id = false) (s : Shape) :
    ((pieces s q).flatMap Shape.preorder).filter P =
      (s.children.flatMap Shape.preorder).filter P := by
  rw [pieces, List.flatMap_assoc, List.filter_flatMap, List.filter_flatMap]
  refine List.flatMap_congr fun c _ => ?_
  by_cases hc : c.id = q.action.id
  · rw [if_pos hc, preorder_eq_cons c, List.filter_cons_of_neg (by rw [hc, hP]; simp)]
  · rw [if_neg hc, List.flatMap_singleton]

/-- Conversions below a statement, counted by its pieces. -/
theorem sum_conversions_pieces {found : List Shape} (hf : f.Holds s)
    (hq : q.FoundIn (fun x => f.kind x.id) Shape.children s found) :
    ((pieces s q).map fun p => (f.elementOf p).conversions).sum =
      (s.children.map fun c => (f.elementOf c).conversions).sum := by
  have haction : (f.elementOf q.action).conversions =
      (q.action.children.map fun c => (f.elementOf c).conversions).sum := by
    have hkind : (f.elementOf q.action).kind ≠ .ifStmt := by
      rw [kind_elementOf, hq.action_kind]
      decide
    rw [Element.conversions_eq, Element.conversion?_of_kind hkind, children_elementOf, List.map_map]
    exact Nat.zero_add _
  rw [((perm_pieces hf hq).map _).sum_eq, (hq.children_perm.map _).sum_eq]
  simp only [List.cons_append, List.map_cons, List.map_append, List.sum_cons,
    List.sum_append, haction]

/-- A node that is no one-line IF may be visited or not. -/
theorem foldl_filter_cons {P : Nat → Bool} {d : Draft} {i : Nat}
    (hP : P i = (d.forest.kind i == .ifStmt)) (js : List Nat) :
    ((i :: js).filter P).foldl (fun d i => convertIf d none i) d =
      (js.filter P).foldl (fun d i => convertIf d none i) (convertIf d none i) := by
  cases hi : P i with
  | true => rw [List.filter_cons_of_pos hi, List.foldl_cons]
  | false =>
    have hskip : convertIf d none i = d := by
      rw [convertIf, ← hP, hi]
      rfl
    rw [List.filter_cons_of_neg (by simp [hi]), hskip]

/-- The nodes of several shapes: the top of the first, and what is to be visited when it stays. -/
theorem flatMap_preorder_cons (s : Shape) (rest : List Shape) :
    (s :: rest).flatMap Shape.preorder = s.id :: (s.children ++ rest).flatMap Shape.preorder := by
  rw [List.flatMap_cons, preorder_eq_cons, List.flatMap_append, List.cons_append]

/-- The nodes of several shapes: the top of the first, the wrapper of its action, and what is to be
visited when it is converted. -/
theorem perm_flatMap_pieces {found : List Shape} (hss : f.HoldsAll (s :: rest))
    (hq : q.FoundIn (fun x => f.kind x.id) Shape.children s found) :
    ((s :: rest).flatMap Shape.preorder).Perm
      (s.id :: q.action.id :: (pieces s q ++ rest).flatMap Shape.preorder) := by
  rw [List.flatMap_cons, List.flatMap_append]
  exact (perm_preorder hss.head hq).append_right _

/-- The store carries what is to be visited when the first shape is converted. -/
theorem HoldsAll.carries_pieces {found : List Shape} (hss : f.HoldsAll (s :: rest))
    (hq : q.FoundIn (fun x => f.kind x.id) Shape.children s found) :
    ∀ r ∈ pieces s q ++ rest, f.Carries r := by
  have hf := hss.head
  rw [List.forall_mem_append]
  refine ⟨fun p hp => ?_, hss.carries_rest⟩
  rcases List.mem_append.mp ((perm_pieces hf hq).mem_iff.mp hp) with hp | hp
  · rcases List.mem_cons.mp hp with rfl | hp
    · exact hf.carries.child (hq.children_perm.mem_iff.mpr (by simp))
    · exact (hf.carries.child (hq.children_perm.mem_iff.mpr (by simp))).child hp
  · exact hf.carries.child (hq.children_perm.mem_iff.mpr (by simp [List.mem_append.mp hp]))

/-- A conversion changes only tails in what is to be visited afterwards. -/
theorem Constructed.node_pieces {found : List Shape} (hss : f.HoldsAll (s :: rest))
    (hq : q.FoundIn (fun x => f.kind x.id) Shape.children s found)
    (hstep : f.Constructed f₁ s q level) {j : Nat}
    (hj : j ∈ (pieces s q ++ rest).flatMap Shape.preorder) :
    f₁.node j = { f.node j with tail := f₁.tail j } := by
  obtain ⟨r, hr, hj⟩ := List.mem_flatMap.mp hj
  rcases List.mem_append.mp hr with hr | hr
  · exact hstep.node_piece hss.head hq hr hj
  · have hnode := hss.node_rest (fun j hj hs => hstep.node_outside hss.head hq hj hs) hr hj
    rw [tail, hnode]

/-- The shapes that are still to be visited. The nodes that `P` selects among theirs are the
one-line IFs. -/
structure Pending (P : Nat → Bool) (f : Forest) (ss : List Shape) : Prop extends HoldsAll f ss where
  selects : ∀ j : Nat, j ∈ ss.flatMap Shape.preorder → P j = (f.kind j == .ifStmt)

namespace Pending

variable {P : Nat → Bool}

theorem below (h : Pending P f (s :: rest)) : Pending P f (s.children ++ rest) := by
  have hpreorder := flatMap_preorder_cons s rest
  have hn := h.nodup
  rw [hpreorder, List.nodup_cons] at hn
  refine ⟨⟨?_, hn.2⟩, fun j hj => h.selects j (by rw [hpreorder]; exact List.mem_cons_of_mem _ hj)⟩
  rw [List.forall_mem_append]
  exact ⟨fun c hc => h.head.carries.child hc, h.carries_rest⟩

/-- A conversion leaves its pieces to be visited. -/
theorem afterConversion (h : Pending P f (s :: rest)) {found : List Shape}
    (hq : q.FoundIn (fun x => f.kind x.id) Shape.children s found)
    (hstep : f.Constructed f₁ s q level) : Pending P f₁ (pieces s q ++ rest) := by
  have hsize := hstep.size_eq
  have hperm := perm_flatMap_pieces h.toHoldsAll hq
  refine
    ⟨⟨fun r hr => ?_, (List.nodup_cons.mp (List.nodup_cons.mp (hperm.nodup_iff.mp h.nodup)).2).2⟩,
    fun j hj => ?_⟩
  · refine (h.toHoldsAll.carries_pieces hq r hr).congr_children (by omega) fun j hj => ?_
    rw [children, hstep.node_pieces h.toHoldsAll hq (List.mem_flatMap.mpr ⟨r, hr, hj⟩), children]
  · have hkind : f₁.kind j = f.kind j := by
      rw [kind, hstep.node_pieces h.toHoldsAll hq hj]
      rfl
    rw [hkind]
    exact h.selects j (hperm.mem_iff.mpr (List.mem_cons_of_mem _ (List.mem_cons_of_mem _ hj)))

end Pending

/-- Induction over the visits to the nodes of some shapes. The first shape either stays, and its
children are visited next, or it is converted, and its pieces are. -/
theorem visits_induct {P : Nat → Bool} {motive : Draft → List Shape → Draft → Prop}
    (nil : ∀ d, motive d [] d)
    (keep : ∀ d d' s rest, Pending P d.forest (s :: rest) →
      (d.forest.elementOf s).conversion? = none →
      motive d (s.children ++ rest) d' → motive d (s :: rest) d')
    (convert : ∀ d d' s rest q found level f₁, Pending P d.forest (s :: rest) →
      q.FoundIn (fun x => d.forest.kind x.id) Shape.children s found →
      (d.forest.elementOf s).conversion? = some (q.map d.forest.elementOf) →
      d.forest.Constructed f₁ s q level → convertIf d none s.id = ⟨f₁, d.edits + 1⟩ →
      motive ⟨f₁, d.edits + 1⟩ (pieces s q ++ rest) d' → motive d (s :: rest) d')
    (d : Draft) (ss : List Shape) (hss : Pending P d.forest ss) :
    motive d ss
      (((ss.flatMap Shape.preorder).filter P).foldl (fun d i => convertIf d none i) d) := by
  -- Induction on the number of nodes still to be visited: pieces are no children of the statement.
  induction hlen : (ss.flatMap Shape.preorder).length using Nat.strong_induction_on
    generalizing d ss with
  | h n ih =>
    cases ss with
    | nil => exact nil d
    | cons s rest =>
      have hheld := hss.head
      have hfold := foldl_filter_cons (hss.selects s.id (Shape.id_mem_flatMap List.mem_cons_self))
        (s.children.flatMap Shape.preorder ++ rest.flatMap Shape.preorder)
      rw [← List.cons_append, ← preorder_eq_cons, ← List.flatMap_cons] at hfold
      rw [hfold]
      cases hconv : (d.forest.elementOf s).conversion? with
      | none =>
        have hlt : ((s.children ++ rest).flatMap Shape.preorder).length < n := by
          rw [← hlen, List.flatMap_cons, preorder_eq_cons, List.flatMap_append]
          simp
        rw [convertIf_eq_self hheld hconv, ← List.flatMap_append]
        exact keep d _ s rest hss hconv (ih _ hlt d _ hss.below rfl)
      | some p =>
        obtain ⟨q, found, level, f₁, hfound, rfl, hmade, hstep⟩ := exists_constructed hheld hconv
        have hP : P q.action.id = false := by
          rw [hss.selects q.action.id, hfound.action_kind]
          · rfl
          · rw [List.flatMap_cons, List.mem_append]
            exact Or.inl ((perm_preorder hheld hfound).mem_iff.mpr (by simp))
        have hlt : ((pieces s q ++ rest).flatMap Shape.preorder).length < n := by
          rw [← hlen, List.flatMap_cons, List.length_append, (perm_preorder hheld hfound).length_eq,
            List.flatMap_append, List.length_append, List.length_cons, List.length_cons]
          omega
        rw [hstep, List.filter_append, ← filter_pieces hP, ← List.filter_append,
          ← List.flatMap_append]
        exact convert d _ s rest q found level f₁ hss hfound hconv hmade hstep
          (ih _ hlt ⟨f₁, d.edits + 1⟩ _ (hss.afterConversion hfound hmade) rfl)

/-- After the visits to the nodes of some shapes, each of them is converted. -/
theorem exists_converted {P : Nat → Bool} (d : Draft) (ss : List Shape)
    (hss : Pending P d.forest ss) :
    ∃ F d', ((ss.flatMap Shape.preorder).filter P).foldl (fun d i => convertIf d none i) d = d' ∧
      Converted d.forest d'.forest ss F ∧
      d'.edits = d.edits + (ss.map fun s => (d.forest.elementOf s).conversions).sum := by
  refine visits_induct (P := P)
    (motive := fun d ss run => ∃ F d', run = d' ∧ Converted d.forest d'.forest ss F ∧
    d'.edits = d.edits + (ss.map fun s => (d.forest.elementOf s).conversions).sum) ?_ ?_ ?_ d ss hss
  · intro d
    refine ⟨id, d, rfl, ⟨Nat.le_refl _, fun _ _ _ => rfl, ?_, ?_, ?_, ?_, ?_⟩, rfl⟩ <;> simp
  · rintro d _ s rest hss hconv ⟨F, d', rfl, hF, hedits⟩
    obtain ⟨i, cs⟩ := s
    refine ⟨_, _, rfl, hF.keep hss.toHoldsAll hconv, ?_⟩
    rw [hedits, List.map_append, List.sum_append, List.map_cons, List.sum_cons,
      Element.conversions_eq, hconv, children_elementOf, List.map_map]
    simp [Shape.children, Function.comp_def]
  · rintro d _ s rest q found level f₁ hss hfound hconv hmade - ⟨F, d', rfl, hF, hedits⟩
    have hheld := hss.head
    refine ⟨_, _, rfl, .convert hss.toHoldsAll hfound hmade hF hconv, ?_⟩
    have hpieces := List.map_congr_left fun p hp => congrArg Element.conversions
      (hmade.elementOf_piece hheld hfound hp)
    have hrest := List.map_congr_left fun r hr => congrArg Element.conversions
      (elementOf_congr fun j hj => hss.node_rest
        (fun j hj hs => hmade.node_outside hheld hfound hj hs) hr hj)
    simp only [Element.conversions_with_tail] at hpieces
    rw [hedits, List.map_append, List.sum_append, hpieces, hrest,
      sum_conversions_pieces hheld hfound, List.map_cons, List.sum_cons, Element.conversions_eq,
      hconv, children_elementOf, List.map_map]
    simp only [Option.isSome_some, if_true, Function.comp_def]
    omega

/-- At the beginning, the whole tree is to be visited. -/
theorem pending_ofElement (e : Element) :
    Pending ((ofElement e).kind · == .ifStmt) (ofElement e) [e.shapeFrom 0] :=
  ⟨⟨by simpa using (holds_ofElement e).carries, by simpa using (holds_ofElement e).nodup⟩,
    fun _ _ => rfl⟩

theorem convertIfStatements_ofElement (e : Element) :
    e.Converts (convertIfStatements (ofElement e)).forest.toElement ∧
      (convertIfStatements (ofElement e)).edits = e.conversions := by
  have hheld := holds_ofElement e
  obtain ⟨F, d, hrun, hF, hedits⟩ :=
    exists_converted { forest := ofElement e } _ (pending_ofElement e)
  rw [List.flatMap_singleton, ← hheld.preorder_eq (e.id_shapeFrom 0)] at hrun
  have hid := hF.id_eq _ List.mem_cons_self
  have hconv := hF.converts _ List.mem_cons_self
  rw [elementOf_ofElement] at hconv
  rw [convertIfStatements, hrun]
  constructor
  · rw [(hF.holds _ List.mem_cons_self).toElement_eq (hid.trans (e.id_shapeFrom 0))]
    exact hconv
  · simpa using hedits

end Forest

open Element (keywords)

/-- The characters after all conversions are within what there was before and the keywords of the
statements that are counted. They are exactly that if and only if no conversion leaves out code. -/
theorem characters_convertIfStatements (e : Element) :
    (convertIfStatements (.ofElement e)).edits = e.conversions ∧
      (((convertIfStatements (.ofElement e)).forest.code .outsideMarkers : Multiset Char) ≤
        (Forest.ofElement e).code .outsideMarkers +
          (convertIfStatements (.ofElement e)).edits • keywords) ∧
      (((convertIfStatements (.ofElement e)).forest.code .outsideMarkers : Multiset Char) =
          (Forest.ofElement e).code .outsideMarkers +
            (convertIfStatements (.ofElement e)).edits • keywords ↔
        e.KeepsCode) := by
  obtain ⟨hconv, hedits⟩ := Forest.convertIfStatements_ofElement e
  have hbalanced := hconv.balanced
  rw [Forest.code, Forest.code, Forest.toElement_ofElement, hedits]
  exact ⟨rfl, hbalanced.le, hbalanced.eq_iff⟩

/-- A one-line IF whose closing parenthesis comes after the marker that continues the line. -/
def continuedIf : Element where
  tag := "file"
  children :=
    [{ tag := "if-stmt"
       text := "IF ("
       tail := "\n"
       children :=
        [{ tag := "condition-E", text := "A", tail := " " },
         { tag := "cnt", text := "&", tail := "\n  ) " },
         { tag := "action-stmt", children := [{ tag := "print-stmt", text := "PRINT*,X" }] }] }]

/-- The parenthesis goes with the marker. -/
theorem characters_convertIfStatements_continuedIf :
    (convertIfStatements (.ofElement continuedIf)).edits = 1 ∧
      ')' ∈ (Forest.ofElement continuedIf).code .outsideMarkers ∧
      ')' ∉ (convertIfStatements (.ofElement continuedIf)).forest.code .outsideMarkers ∧
      ((convertIfStatements (.ofElement continuedIf)).forest.code .outsideMarkers : Multiset Char) ≠
        (Forest.ofElement continuedIf).code .outsideMarkers +
          (convertIfStatements (.ofElement continuedIf)).edits • keywords := by
  have hbefore : ')' ∈ (Forest.ofElement continuedIf).code .outsideMarkers := by decide +kernel
  have hafter :
      ')' ∉ (convertIfStatements (.ofElement continuedIf)).forest.code .outsideMarkers := by
    decide +kernel
  refine ⟨by decide +kernel, hbefore, hafter, fun h => hafter ?_⟩
  have hmem : ')' ∈ ((Forest.ofElement continuedIf).code .outsideMarkers : Multiset Char) +
      (convertIfStatements (.ofElement continuedIf)).edits • keywords :=
    Multiset.mem_add.mpr (Or.inl hbefore)
  rw [← h] at hmem
  exact hmem

end FortranLayout
