import FortranLayout.Proofs.Markers.Sweep

/-!
# Directives at the starts of lines

A directive must stand at the start of a line. When all markers are removed the comments after a
marker go with their tails, and with them may go the newline before a directive. `Forest.keptStarts`
walks through a tree with the nodes that go left out, and with the line break of each marker that
goes read as a blank; after the removal exactly those nodes start a line that this walk meets on a
blank line (`startsLine_updateContinuation`).
-/

namespace FortranLayout

namespace Text

/-- Whether the line that is being read has nothing but blanks after `s`, given whether it had
before. -/
def blankAfter (blank : Bool) (s : List Char) : Bool :=
  s.foldl (fun blank c => c == '\n' || (blank && isBlank c)) blank

theorem blankAfter_append (blank : Bool) (s t : List Char) :
    blankAfter blank (s ++ t) = blankAfter (blankAfter blank s) t := by
  rw [blankAfter, List.foldl_append]
  rfl

theorem blankAfter_concat_code {c : Char} (hc : isWhitespace c = false) (blank : Bool)
    (s : List Char) :
    blankAfter blank (s ++ [c]) = false := by
  have hnewline : (c == '\n') = false := by
    rw [beq_eq_false_iff_ne]
    rintro rfl
    cases hc
  have hblank : isBlank c = false := by
    rw [isBlank, beq_eq_false_iff_ne]
    rintro rfl
    cases hc
  rw [blankAfter_append, blankAfter, List.foldl_cons, hnewline, hblank, Bool.and_false]
  rfl

theorem all_trim (s : List Char) : (trim s).all isWhitespace = s.all isWhitespace := by
  have hdrop : ∀ t : List Char,
      (t.dropWhile isWhitespace).all isWhitespace = t.all isWhitespace := by
    intro t
    induction t with
    | nil => rfl
    | cons c t ih =>
      by_cases hc : isWhitespace c = true
      · rw [List.dropWhile_cons_of_pos hc, ih, List.all_cons, hc, Bool.true_and]
      · rw [List.dropWhile_cons_of_neg hc]
  rw [trim, List.all_reverse, hdrop, List.all_reverse, hdrop]

/-- A trimmed text is empty or ends with something else than white space. -/
theorem trim_cases (s : List Char) :
    trim s = [] ∨ ∃ t c, trim s = t ++ [c] ∧ isWhitespace c = false := by
  rw [trim]
  cases h : (s.dropWhile isWhitespace).reverse.dropWhile isWhitespace with
  | nil => exact Or.inl rfl
  | cons c t =>
    refine Or.inr ⟨t.reverse, c, by simp, ?_⟩
    have hhead := List.head?_dropWhile_not isWhitespace (s.dropWhile isWhitespace).reverse
    rw [h] at hhead
    simpa using hhead

/-- The line stays blank over what a removed marker leaves if its tail is white space. -/
theorem blankAfter_trim (blank : Bool) (s : List Char) :
    blankAfter blank (trim s ++ [' ']) = (blank && s.all isWhitespace) := by
  rw [← all_trim]
  rcases trim_cases s with h | ⟨t, c, h, hc⟩
  · rw [h]
    cases blank <;> rfl
  · rw [h, blankAfter_append, blankAfter_concat_code hc, List.all_append, List.all_cons, hc]
    simp [blankAfter]

end Text

open Text (blankAfter)

/-! ## Line starts -/

namespace Forest

mutual

/-- Each node of a shape with the source before its text, if `t` is the source before the shape. -/
def sourcesBefore (f : Forest) (t : List Char) : Shape → List (NodeId × List Char)
  | .node i cs => (i, t) :: f.sourcesBeforeIn (t ++ (f.text i).toList) cs

/-- Each node of several shapes with the source before its text. -/
def sourcesBeforeIn (f : Forest) (t : List Char) : List Shape → List (NodeId × List Char)
  | [] => []
  | s :: ss => f.sourcesBefore t s ++ f.sourcesBeforeIn (t ++ (f.elementOf s).source.toList) ss

end

/-- The node is in the tree, with nothing but blanks between the newline before its text, or the
start of the source, and its text. -/
def StartsLine (f : Forest) (i : NodeId) : Prop :=
  ∃ p ∈ f.sourcesBefore [] (f.shape root), p.1 = i ∧ blankAfter true p.2 = true

instance (f : Forest) (i : NodeId) : Decidable (f.StartsLine i) :=
  inferInstanceAs (Decidable (∃ p ∈ f.sourcesBefore [] (f.shape root), _))

mutual

/-- Each node of a shape with whether it is met on a blank line, and whether the line is blank after
the shape. -/
def lineStarts (f : Forest) (blank : Bool) : Shape → List (NodeId × Bool) × Bool
  | .node i cs =>
    let below := f.lineStartsIn (blankAfter blank (f.text i).toList) cs
    ((i, blank) :: below.1, blankAfter below.2 (f.tail i).toList)

/-- Each node of several shapes with whether it is met on a blank line. -/
def lineStartsIn (f : Forest) (blank : Bool) : List Shape → List (NodeId × Bool) × Bool
  | [] => ([], blank)
  | s :: ss =>
    let first := f.lineStarts blank s
    let rest := f.lineStartsIn first.2 ss
    (first.1 ++ rest.1, rest.2)

end

theorem lineStarts_eq (f : Forest) (s : Shape) (t : List Char) :
    f.lineStarts (blankAfter true t) s =
      ((f.sourcesBefore t s).map fun p => (p.1, blankAfter true p.2),
        blankAfter true (t ++ (f.elementOf s).source.toList)) := by
  induction s using Shape.induct generalizing t with
  | h i cs ih =>
    have hcs : ∀ t, f.lineStartsIn (blankAfter true t) cs =
        ((f.sourcesBeforeIn t cs).map fun p => (p.1, blankAfter true p.2),
          blankAfter true (t ++ (Element.sources (cs.map f.elementOf)).toList)) := by
      induction cs with
      | nil =>
        intro t
        simp [lineStartsIn, sourcesBeforeIn, Element.sources]
      | cons c cs ihcs =>
        intro t
        rw [lineStartsIn, sourcesBeforeIn, ih c List.mem_cons_self]
        dsimp only
        rw [ihcs fun d hd => ih d (List.mem_cons_of_mem _ hd)]
        simp [Element.sources]
    rw [lineStarts, sourcesBefore, ← Text.blankAfter_append, hcs]
    simp [Element.source, Text.blankAfter_append]

theorem startsLine_iff {f : Forest} {s : Shape} (h : f.Holds s) (hs : s.id = root) (i : NodeId) :
    f.StartsLine i ↔ (i, true) ∈ (f.lineStarts true s).1 := by
  have hshape : f.shape root = s := hs ▸ h.shape_eq
  have heq := f.lineStarts_eq s []
  have hstart : blankAfter true [] = true := rfl
  rw [hstart] at heq
  rw [StartsLine, hshape, heq, List.mem_map]
  constructor
  · rintro ⟨p, hp, rfl, hb⟩
    exact ⟨p, hp, by rw [hb]⟩
  · rintro ⟨p, hp, he⟩
    rw [Prod.mk.injEq] at he
    exact ⟨p, hp, he.1, he.2⟩

/-! ## Line starts in what is left -/

mutual

/-- Each node that is left of a shape with whether it is met on a blank line, and whether the line
is blank after the shape. -/
def keptStarts (f : Forest) (blank : Bool) : Shape → List (NodeId × Bool) × Bool
  | .node i cs =>
    let below := f.keptStartsIn true false (blankAfter blank (f.text i).toList) cs
    ((i, blank) :: below.1, blankAfter below.2 (f.tail i).toList)

/-- Each node that is left of several shapes with whether it is met on a blank line. `keeping` says
that what is moved to the place before the shapes is kept; `dropping` says that comments here go
with a marker before them. -/
def keptStartsIn (f : Forest) (keeping dropping blank : Bool) :
    List Shape → List (NodeId × Bool) × Bool
  | [] => ([], blank)
  | c :: cs =>
    let kind := f.kind c.id
    if kind == .continuation && !leadsToDirective (fun d => f.kind d.id) cs then
      f.keptStartsIn keeping true
        (blank && (!keeping || (f.tail c.id).toList.all Text.isWhitespace)) cs
    else if kind == .comment && dropping then f.keptStartsIn false true blank cs
    else
      let first := f.keptStarts blank c
      let rest :=
        f.keptStartsIn true (kind == .continuation || (dropping && kind == .directive)) first.2 cs
      (first.1 ++ rest.1, rest.2)

end

/-- The node is left when all markers are removed, and then starts a line. -/
def StartsKeptLine (f : Forest) (i : NodeId) : Prop :=
  (i, true) ∈ (f.keptStarts true (f.shape root)).1

instance (f : Forest) (i : NodeId) : Decidable (f.StartsKeptLine i) :=
  inferInstanceAs (Decidable (_ ∈ _))

/-! ## The walk through the swept store -/

open Element

variable {o : MarkerOptions} {f g : Forest}

theorem blankAfter_lead (hadd : o.addBegin = false) (es : List Element) (blank : Bool) :
    blankAfter blank (reviseAll o {} es).lead =
      (blank && (reviseAll o {} es).lead.all Text.isWhitespace) := by
  rcases lead_cases hadd es with hlead | ⟨t, _, _, hlead⟩
  · rw [hlead]
    cases blank <;> rfl
  · have hspace : [' '].all Text.isWhitespace = true := by decide
    rw [hlead, Text.blankAfter_trim, List.all_append, Text.all_trim, hspace, Bool.and_true]

/-- The shapes that are left of several shapes, after what `dropping` says. -/
def leftOf (f : Forest) (dropping : Bool) (cs : List Shape) : List Shape :=
  pruneComments (fun c => f.kind c.id) dropping
    (sweep (fun c => f.kind c.id) (cs.map (Shape.swept f.kind)))

theorem leadsToDirective_swept (f : Forest) (cs : List Shape) :
    leadsToDirective (fun d => f.kind d.id)
        (sweep (fun c => f.kind c.id) (cs.map (Shape.swept f.kind))) =
      leadsToDirective (fun d => f.kind d.id) cs := by
  rw [leadsToDirective_sweep, leadsToDirective_map]
  simp

theorem dropsMarker_elementOf (hadd : o.addBegin = false) (hall : o.removeAll = true) (f : Forest)
    (t : List Char) (cs : List Shape) :
    o.dropsMarker (t ++ (reviseAll o {} (cs.map f.elementOf)).lead)
        (reviseAll o {} (cs.map f.elementOf)).elements =
      !leadsToDirective (fun d => f.kind d.id) cs := by
  have hmap := leadsToDirective_map Element.kind f.elementOf cs
  simp only [kind_elementOf] at hmap
  rw [dropsMarker_reviseAll hadd, MarkerOptions.dropsMarker, MarkerOptions.removes,
    hall, Bool.true_or, Bool.true_and, ← hmap]
  rfl

/-- A marker that goes, and the comments after it. -/
theorem left_of_drops (hadd : o.addBegin = false) (hall : o.removeAll = true) {c : Shape}
    {cs : List Shape} (hc : f.kind c.id = .continuation)
    (hd : leadsToDirective (fun d => f.kind d.id) cs = false) (dropping : Bool) :
    f.leftOf dropping (c :: cs) = f.leftOf true cs ∧
      (reviseAll o {} ((c :: cs).map f.elementOf)).lead =
        Text.trim ((f.tail c.id).toList ++ (reviseAll o {} (cs.map f.elementOf)).lead) ++ [' '] ∧
      pruneComments Element.kind dropping (reviseAll o {} ((c :: cs).map f.elementOf)).elements =
        pruneComments Element.kind true (reviseAll o {} (cs.map f.elementOf)).elements := by
  have hkind : (f.elementOf c).kind = .continuation := (kind_elementOf f c).trans hc
  have hdrops := dropsMarker_elementOf hadd hall f (f.elementOf c).tail.toList cs
  rw [hd, Bool.not_false] at hdrops
  obtain ⟨hlead, helements⟩ := cons_of_drops hadd hkind hdrops
  refine ⟨?_, ?_, ?_⟩
  · rw [leftOf, List.map_cons, sweep, List.foldr_cons, ← sweep, sweepOne,
      leadsToDirective_swept, hd, Shape.id_swept, hc]
    exact pruneComments_pruneComments (fun _ => rfl) _
  · rw [List.map_cons, reviseAll, hlead, tail_elementOf]
  · rw [List.map_cons, reviseAll, helements, hall, pruneComments_pruneComments fun _ => rfl]

theorem left_of_comment {c : Shape} {cs : List Shape} (hc : f.kind c.id = .comment) :
    f.leftOf true (c :: cs) = f.leftOf true cs ∧
      (reviseAll o {} ((c :: cs).map f.elementOf)).lead = [] ∧
      pruneComments Element.kind true (reviseAll o {} ((c :: cs).map f.elementOf)).elements =
        pruneComments Element.kind true (reviseAll o {} (cs.map f.elementOf)).elements := by
  have hkind : (f.elementOf c).kind = .comment := (kind_elementOf f c).trans hc
  obtain ⟨hlead, helements⟩ := cons_of_not_marker (o := o)
    (by rw [hkind]; decide : (f.elementOf c).kind ≠ .continuation)
    (reviseAll o {} (cs.map f.elementOf))
  refine ⟨?_, ?_, ?_⟩
  · rw [leftOf, List.map_cons, sweep, List.foldr_cons, ← sweep, sweepOne, Shape.id_swept, hc]
    exact pruneComments_cons_comment (by simpa using hc) _
  · rw [List.map_cons, reviseAll, hlead]
  · rw [List.map_cons, reviseAll, helements, pruneComments_cons_comment (by exact hkind)]

/-- A marker that stays; the comments after it go. -/
theorem left_of_marker_stays (hadd : o.addBegin = false) (hall : o.removeAll = true) {c : Shape}
    {cs : List Shape} (dropping : Bool) (hcont : f.kind c.id = .continuation)
    (hdirective : leadsToDirective (fun d => f.kind d.id) cs = true) :
    f.leftOf dropping (c :: cs) = c.swept f.kind :: f.leftOf true cs ∧
      (reviseAll o {} ((c :: cs).map f.elementOf)).lead = [] ∧
      pruneComments Element.kind dropping (reviseAll o {} ((c :: cs).map f.elementOf)).elements =
        { (f.elementOf c).revised o with
          tail := String.ofList
            ((f.tail c.id).toList ++ (reviseAll o {} (cs.map f.elementOf)).lead) } ::
          pruneComments Element.kind true (reviseAll o {} (cs.map f.elementOf)).elements := by
  have hkind : (f.elementOf c).kind = .continuation := (kind_elementOf f c).trans hcont
  have hdrops := dropsMarker_elementOf hadd hall f (f.elementOf c).tail.toList cs
  rw [hdirective, Bool.not_true] at hdrops
  obtain ⟨hlead, helements⟩ := cons_of_not_drops hadd hkind hdrops
  have hkept : f.kind c.id ≠ .comment := by
    rw [hcont]
    decide
  refine ⟨?_, ?_, ?_⟩
  · rw [leftOf, List.map_cons, sweep, List.foldr_cons, ← sweep, sweepOne, leadsToDirective_swept,
      hdirective, Shape.id_swept, hcont, if_pos (beq_self_eq_true _), if_pos rfl,
      pruneComments_cons (by simpa using hkept), pruneComments_pruneComments fun _ => rfl]
    rfl
  · rw [List.map_cons, reviseAll, hlead]
  · rw [List.map_cons, reviseAll, helements,
      pruneComments_cons_of_not_commentLike (by exact not_commentLike_of_marker hkind),
      hall, tail_elementOf]

/-- A node that is neither a marker nor a comment to be dropped; the dropping ends unless it is a
directive. -/
theorem left_of_other_stays {c : Shape} {cs : List Shape} {dropping : Bool}
    (hcont : f.kind c.id ≠ .continuation) (hc : (f.kind c.id == .comment && dropping) = false) :
    f.leftOf dropping (c :: cs) =
        c.swept f.kind :: f.leftOf (dropping && f.kind c.id == .directive) cs ∧
      (reviseAll o {} ((c :: cs).map f.elementOf)).lead = [] ∧
      pruneComments Element.kind dropping (reviseAll o {} ((c :: cs).map f.elementOf)).elements =
        { (f.elementOf c).revised o with
          tail := String.ofList
            ((f.tail c.id).toList ++ (reviseAll o {} (cs.map f.elementOf)).lead) } ::
          pruneComments Element.kind (dropping && f.kind c.id == .directive)
            (reviseAll o {} (cs.map f.elementOf)).elements := by
  have hkind : (f.elementOf c).kind = f.kind c.id := kind_elementOf f c
  obtain ⟨hlead, helements⟩ := cons_of_not_marker (o := o) (by rw [hkind]; exact hcont)
    (reviseAll o {} (cs.map f.elementOf))
  have hleft : f.leftOf dropping (c :: cs) =
      pruneComments (fun c => f.kind c.id) dropping (c.swept f.kind ::
        sweep (fun c => f.kind c.id) (cs.map (Shape.swept f.kind))) := by
    rw [leftOf, List.map_cons, sweep, List.foldr_cons, ← sweep, sweepOne, Shape.id_swept,
      if_neg (by simpa using hcont)]
  rw [hleft, List.map_cons, reviseAll, hlead, helements, tail_elementOf]
  refine ⟨?_, rfl, ?_⟩
  · by_cases hcomment : f.kind c.id = .comment
    · rw [hcomment, beq_self_eq_true, Bool.true_and] at hc
      rw [hc]
      rfl
    · rw [pruneComments_cons (by simpa using hcomment), Shape.id_swept]
      rfl
  · by_cases hcomment : f.kind c.id = .comment
    · rw [hcomment, beq_self_eq_true, Bool.true_and] at hc
      rw [hc]
      rfl
    · have hne : (f.elementOf c).kind ≠ .comment := by
        rw [hkind]
        exact hcomment
      rw [pruneComments_cons (by exact hne), ← hkind]
      rfl

/-- Any other node stays; after a marker that stays comments go as well. -/
theorem left_of_stays (hadd : o.addBegin = false) (hall : o.removeAll = true) {c : Shape}
    {cs : List Shape} {dropping : Bool}
    (hm : (f.kind c.id == .continuation && !leadsToDirective (fun d => f.kind d.id) cs) = false)
    (hc : (f.kind c.id == .comment && dropping) = false) {dropping' : Bool}
    (hd : dropping' = (f.kind c.id == .continuation || (dropping && f.kind c.id == .directive))) :
    f.leftOf dropping (c :: cs) = c.swept f.kind :: f.leftOf dropping' cs ∧
      (reviseAll o {} ((c :: cs).map f.elementOf)).lead = [] ∧
      pruneComments Element.kind dropping (reviseAll o {} ((c :: cs).map f.elementOf)).elements =
        { (f.elementOf c).revised o with
          tail := String.ofList
            ((f.tail c.id).toList ++ (reviseAll o {} (cs.map f.elementOf)).lead) } ::
          pruneComments Element.kind dropping' (reviseAll o {} (cs.map f.elementOf)).elements := by
  by_cases hcont : f.kind c.id = .continuation
  · rw [hcont, beq_self_eq_true, Bool.true_and, Bool.not_eq_false'] at hm
    rw [hcont, beq_self_eq_true, Bool.true_or] at hd
    exact hd ▸ left_of_marker_stays hadd hall dropping hcont hm
  · rw [beq_eq_false_iff_ne.mpr hcont, Bool.false_or] at hd
    exact hd ▸ left_of_other_stays hcont hc

/-- What the store `g` has below and after the top of a swept shape, where `lead` has been moved to
its tail. -/
def FollowsKept (o : MarkerOptions) (f g : Forest) (c : Shape) : Prop :=
  ∀ (blank : Bool) (lead : List Char),
    g.elementOf (c.swept f.kind) =
        { (f.elementOf c).revised o with tail := String.ofList ((f.tail c.id).toList ++ lead) } →
      g.lineStarts blank (c.swept f.kind) =
        ((f.keptStarts blank c).1, blankAfter (f.keptStarts blank c).2 lead)

theorem followsKept_all (hadd : o.addBegin = false) (hall : o.removeAll = true) {cs : List Shape}
    (ih : ∀ c ∈ cs, FollowsKept o f g c) (keeping dropping blank : Bool)
    (hg : (f.leftOf dropping cs).map g.elementOf =
      pruneComments Element.kind dropping (reviseAll o {} (cs.map f.elementOf)).elements) :
    g.lineStartsIn
        (if keeping then blankAfter blank (reviseAll o {} (cs.map f.elementOf)).lead else blank)
        (f.leftOf dropping cs) =
      f.keptStartsIn keeping dropping blank cs := by
  induction cs generalizing keeping dropping blank with
  | nil =>
    have hnil : f.leftOf dropping [] = [] := by cases dropping <;> rfl
    rw [hnil, keptStartsIn, lineStartsIn]
    cases keeping <;> rfl
  | cons c cs ihcs =>
    have ihrest := ihcs fun d hd => ih d (List.mem_cons_of_mem _ hd)
    rw [keptStartsIn]
    dsimp only
    cases hm : (f.kind c.id == .continuation && !leadsToDirective (fun d => f.kind d.id) cs) with
    | true =>
      rw [Bool.and_eq_true, beq_iff_eq, Bool.not_eq_true'] at hm
      obtain ⟨hleft, hlead, helements⟩ := left_of_drops hadd hall hm.1 hm.2 dropping
      rw [hleft, helements] at hg
      rw [if_pos rfl, hleft, hlead, ← ihrest keeping true _ hg]
      cases keeping with
      | false => simp
      | true =>
        rw [if_pos rfl, if_pos rfl, Text.blankAfter_trim, blankAfter_lead hadd, List.all_append,
          Bool.not_true, Bool.false_or, Bool.and_assoc]
    | false =>
      have hstart : (if keeping then blankAfter blank [] else blank) = blank := by
        cases keeping <;> rfl
      rw [if_neg Bool.false_ne_true]
      cases hc : (f.kind c.id == .comment && dropping) with
      | true =>
        rw [Bool.and_eq_true, beq_iff_eq] at hc
        obtain ⟨hcomment, rfl⟩ := hc
        obtain ⟨hleft, hlead, helements⟩ := left_of_comment (o := o) hcomment
        rw [hleft, helements] at hg
        rw [if_pos rfl, hleft, hlead, hstart, ← ihrest false true blank hg]
        rfl
      | false =>
        obtain ⟨hleft, hlead, helements⟩ := left_of_stays hadd hall hm hc rfl
        rw [hleft, helements, List.map_cons, List.cons.injEq] at hg
        rw [if_neg Bool.false_ne_true, hleft, hlead, hstart, lineStartsIn,
          ih c List.mem_cons_self blank _ hg.1, ← ihrest true _ _ hg.2]
        rfl

theorem followsKept (hadd : o.addBegin = false) (hall : o.removeAll = true)
    (f g : Forest) (c : Shape) :
    FollowsKept o f g c := by
  induction c using Shape.induct with
  | h i cs ih =>
    intro blank lead hg
    rw [Shape.swept_node, elementOf_node, revised, elementOf_node, revise_mk,
      Element.mk.injEq] at hg
    obtain ⟨_, htext, htail, hchildren⟩ := hg
    have hbelow :=
      followsKept_all hadd hall ih true false (blankAfter blank (f.text i).toList) hchildren
    rw [if_pos rfl, ← Text.blankAfter_append] at hbelow
    have hleft : f.leftOf false cs = sweep (fun c => f.kind c.id) (cs.map (Shape.swept f.kind)) :=
      rfl
    rw [Shape.swept_node, lineStarts, keptStarts, htext, htail, ← hleft, String.toList_append,
      String.toList_ofList, String.toList_ofList, hbelow]
    simp only [Text.blankAfter_append]
    rfl

end Forest

open Forest

/-! ## The update -/

/-- Removing all markers, exactly those nodes start a line afterwards that the walk through what is
left meets on a blank line. So the directives at the starts of lines stay there exactly if it meets
them so. -/
theorem startsLine_updateContinuation {o : MarkerOptions} (hv : o.validate = .ok ())
    (hall : o.removeAll = true) (e : Element) :
    ∃ m, updateContinuation o root (ofElement e) = .ok m ∧
      (∀ i, m.forest.StartsLine i ↔ (ofElement e).StartsKeptLine i) ∧
      ((∀ i, (ofElement e).kind i = .directive → (ofElement e).StartsLine i →
        m.forest.StartsLine i) ↔
        ∀ i, (ofElement e).kind i = .directive → (ofElement e).StartsLine i →
          (ofElement e).StartsKeptLine i) := by
  have hadd := MarkerOptions.addBegin_eq_false hv (Or.inl hall)
  have halign : o.align = false := by
    rw [Bool.eq_false_iff]
    intro halign
    rw [MarkerOptions.validate, halign, hall] at hv
    cases hv
  have hheld := holds_ofElement e
  have hid : (e.shapeFrom 0).id = root := e.id_shapeFrom 0
  obtain ⟨hswept, helement⟩ :=
    MarkerDraft.sweeps_revise (m := { forest := ofElement e }) hadd hall hheld
  rw [hid] at hswept helement
  have hstarts : ∀ i, (MarkerDraft.revise o root { forest := ofElement e }).forest.StartsLine i ↔
      (ofElement e).StartsKeptLine i := by
    intro i
    have hfollows := followsKept hadd hall (ofElement e)
      (MarkerDraft.revise o root { forest := ofElement e }).forest (e.shapeFrom 0) true [] (by
        rw [helement, List.append_nil, String.ofList_toList, ← tail_elementOf]
        rfl)
    have hshape : (ofElement e).shape root = e.shapeFrom 0 := hid ▸ hheld.shape_eq
    rw [startsLine_iff hswept ((Shape.id_swept _).trans hid), hfollows, StartsKeptLine, hshape]
  have happly :
      o.apply root (ofElement e) = MarkerDraft.revise o root { forest := ofElement e } := by
    rw [MarkerOptions.apply, halign]
    rfl
  refine ⟨o.apply root (ofElement e), ?_, ?_, ?_⟩
  · rw [updateContinuation, hv]
    rfl
  · rw [happly]
    exact hstarts
  · simp only [happly, hstarts]

/-- A declaration whose continued line is behind a directive, after a comment that holds the
newline. -/
def guardedDeclaration : Element where
  tag := "file"
  children :=
    [{ tag := "T-decl-stmt"
       text := "REAL :: X1, "
       tail := "\n"
       children :=
        [{ tag := "cnt", text := "&", tail := " " },
         { tag := "C", text := "! c", tail := "\n" },
         { tag := "cpp", text := "#ifdef A", tail := "\n" },
         { tag := "EN-decl", text := "X2" }] }]

/-- Options that remove all markers and do nothing else. -/
def MarkerOptions.removeAllOnly : MarkerOptions where
  align := false
  removeAll := true
  addBegin := false
  removeBegin := false

theorem startsLine_updateContinuation_guardedDeclaration :
    MarkerOptions.removeAllOnly.validate = .ok () ∧
      ∃ m, updateContinuation .removeAllOnly root (ofElement guardedDeclaration) = .ok m ∧
        ∀ i, m.forest.StartsLine i ↔ (ofElement guardedDeclaration).StartsKeptLine i := by
  obtain ⟨m, hm, hstarts, _⟩ :=
    startsLine_updateContinuation (o := .removeAllOnly) (by decide) rfl guardedDeclaration
  exact ⟨by decide, m, hm, hstarts⟩

/-- The directive is left behind the marker, on its line. -/
theorem not_startsLine_guardedDeclaration :
    ∃ m, updateContinuation .removeAllOnly root (ofElement guardedDeclaration) = .ok m ∧
      (ofElement guardedDeclaration).kind 4 = .directive ∧
      (ofElement guardedDeclaration).StartsLine 4 ∧ ¬ m.forest.StartsLine 4 ∧
      m.forest.source = "REAL :: X1, & #ifdef A\nX2\n" := by
  refine ⟨_, rfl, by decide +kernel, by decide +kernel, by decide +kernel, by decide +kernel⟩

end FortranLayout
