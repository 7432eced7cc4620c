import FortranLayout.Proofs.Markers.Update
import Mathlib.Data.List.DropRight

/-!
# Markers at the beginnings of continued lines

A marker that ends its line may be followed by comments and directives. Adding begin markers looks
at the tail of that marker, at the element after those comments, and at the tail of the last of
them.

* `Element.tidy_settled_revised`: where code in tails stays on its line (`Element.Tidy`), the result
  is *settled*, which means that adding markers once more would add none.
* `met_updateContinuation`: the first code after each marker that ends its line is then a marker,
  unless there is code in the tail of a comment that is not looked at (`Element.unreached`). There
  it stays as it is.
-/

namespace FortranLayout

/-- Options that add markers at the beginnings of lines and do nothing else. -/
def MarkerOptions.addBeginOnly : MarkerOptions where
  align := false
  removeAll := false
  addBegin := true
  removeBegin := false

namespace Element

/-! ## Places -/

mutual

/-- The elements below an element in document order, each with the siblings after it. -/
def places : Element → List (Element × List Element)
  | ⟨_, _, _, cs⟩ => placesIn cs

/-- The elements of a list and those below them, each with the siblings after it. -/
def placesIn : List Element → List (Element × List Element)
  | [] => []
  | e :: es => (e, es) :: (e.places ++ placesIn es)

end

theorem places_eq (e : Element) : e.places = placesIn e.children := by
  obtain ⟨tag, text, tail, cs⟩ := e
  rw [places]

theorem forall_placesIn_cons {P : Element × List Element → Prop} {e : Element} {es : List Element} :
    (∀ q ∈ placesIn (e :: es), P q) ↔
      P (e, es) ∧ (∀ q ∈ placesIn e.children, P q) ∧ ∀ q ∈ placesIn es, P q := by
  rw [placesIn, List.forall_mem_cons, List.forall_mem_append, places_eq]

theorem placesIn_append_right {es fs : List Element} {q : Element × List Element}
    (h : q ∈ placesIn fs) : q ∈ placesIn (es ++ fs) := by
  induction es with
  | nil => exact h
  | cons e es ih =>
    rw [List.cons_append, placesIn]
    exact List.mem_cons_of_mem _ (List.mem_append_right _ ih)

theorem mem_placesIn_of_mem {e : Element} {es : List Element} (he : e ∈ es)
    {q : Element × List Element} (hq : q ∈ e.places) : q ∈ placesIn es := by
  obtain ⟨pre, post, rfl⟩ := List.append_of_mem he
  apply placesIn_append_right
  rw [placesIn]
  exact List.mem_cons_of_mem _ (List.mem_append_left _ hq)

theorem split_mem_placesIn (pre : List Element) (e : Element) (post : List Element) :
    (e, post) ∈ placesIn (pre ++ e :: post) := by
  apply placesIn_append_right
  rw [placesIn]
  exact List.mem_cons_self

/-! ## What follows a marker -/

/-- Whether the first element of a list is a comment or a directive. -/
def startsWithComment (es : List Element) : Bool := es.head?.any isCommentLike

/-- The tails of the comments and directives at the beginning of a list. -/
def commentTails (es : List Element) : List String := (es.takeWhile isCommentLike).map tail

/-- The kind of the first element of a list that is neither a comment nor a directive. -/
def nextKind? (es : List Element) : Option Kind := (es.dropWhile isCommentLike).head?.map kind

/-- The tails of comments after a marker that are not looked at when a begin marker is added: all
but the last, and the last as well if nothing or a marker comes after it. -/
def unreached (es : List Element) : List String :=
  if (nextKind? es).any (· != .continuation) then (commentTails es).dropLast else commentTails es

theorem commentTails_cons_of_pos {e : Element} (h : e.isCommentLike = true) (es : List Element) :
    commentTails (e :: es) = e.tail :: commentTails es := by
  rw [commentTails, List.takeWhile_cons_of_pos h]
  rfl

theorem commentTails_cons_of_neg {e : Element} (h : e.isCommentLike = false) (es : List Element) :
    commentTails (e :: es) = [] := by
  rw [commentTails, List.takeWhile_cons_of_neg (by simp [h])]
  rfl

theorem nextKind?_cons_of_pos {e : Element} (h : e.isCommentLike = true) (es : List Element) :
    nextKind? (e :: es) = nextKind? es := by
  rw [nextKind?, List.dropWhile_cons_of_pos h, nextKind?]

theorem nextKind?_cons_of_neg {e : Element} (h : e.isCommentLike = false) (es : List Element) :
    nextKind? (e :: es) = some e.kind := by
  rw [nextKind?, List.dropWhile_cons_of_neg (by simp [h])]
  rfl

theorem commentTails_append {es : List Element} (h : ∀ c ∈ es, c.isCommentLike = true)
    (fs : List Element) : commentTails (es ++ fs) = es.map tail ++ commentTails fs := by
  rw [commentTails, List.takeWhile_append_of_pos h, List.map_append, commentTails]

theorem nextKind?_append {es : List Element} (h : ∀ c ∈ es, c.isCommentLike = true)
    (fs : List Element) : nextKind? (es ++ fs) = nextKind? fs := by
  rw [nextKind?, List.dropWhile_append_of_pos h, nextKind?]

/-- Without comments there is nothing to look at. -/
theorem unreached_of_not_startsWithComment {es : List Element} (h : startsWithComment es = false) :
    unreached es = [] := by
  have hnil : commentTails es = [] := by
    cases es with
    | nil => rfl
    | cons e es => exact commentTails_cons_of_neg h es
  rw [unreached, hnil]
  split <;> rfl

theorem endsLine_eq (t : List Char) (es : List Element) :
    MarkerOptions.endsLine t es = (Text.hasNewline t || startsWithComment es) := by
  rw [MarkerOptions.endsLine, startsWithComment]
  cases es with
  | nil => rfl
  | cons e es =>
    by_cases h : e.isCommentLike = true
    · rw [List.takeWhile_cons_of_pos h]
      simp [h]
    · rw [List.takeWhile_cons_of_neg h]
      simp [h]

theorem startsWithComment_dropWhile (es : List Element) :
    startsWithComment (es.dropWhile isCommentLike) = false := by
  have hnil := takeWhile_dropWhile_commentLike es
  rw [startsWithComment]
  cases hd : es.dropWhile isCommentLike with
  | nil => rfl
  | cons e rest =>
    rw [hd] at hnil
    by_cases h : e.isCommentLike = true
    · rw [List.takeWhile_cons_of_pos h] at hnil
      cases hnil
    · simpa using h

/-- Code in the tail of a marker, a comment or a directive stays on the line where it begins, and in
the tail of a marker it is not followed by a comment. -/
def TidyAt (e : Element) (after : List Element) : Prop :=
  (e.kind = .continuation ∨ e.isCommentLike = true → '\n' ∉ codeFrom e.tail.toList) ∧
    (e.kind = .continuation → codeFrom e.tail.toList ≠ [] → startsWithComment after = false)

/-- There is nothing to add after a marker that ends its line: no code in its own tail, and no other
element than a marker after the comments. -/
def SettledAt (e : Element) (after : List Element) : Prop :=
  e.kind = .continuation → MarkerOptions.endsLine e.tail.toList after = true →
    codeFrom e.tail.toList = [] ∧ ∀ k ∈ nextKind? after, k = .continuation

/-- A marker ends its line. -/
def EndsLineAt (e : Element) (after : List Element) : Prop :=
  e.kind = .continuation → MarkerOptions.endsLine e.tail.toList after = true

/-- Code in tails stays on its line, everywhere below an element. -/
def Tidy (e : Element) : Prop := ∀ q ∈ e.places, TidyAt q.1 q.2

/-- There is no marker to add anywhere below an element. -/
def Settled (e : Element) : Prop := ∀ q ∈ e.places, SettledAt q.1 q.2

/-- Every marker below an element ends its line. -/
def EndsLines (e : Element) : Prop := ∀ q ∈ e.places, EndsLineAt q.1 q.2

instance (e : Element) (after : List Element) : Decidable (TidyAt e after) :=
  inferInstanceAs (Decidable (_ ∧ _))

instance (e : Element) (after : List Element) : Decidable (EndsLineAt e after) :=
  inferInstanceAs (Decidable (_ → _))

instance (e : Element) : Decidable e.Tidy :=
  inferInstanceAs (Decidable (∀ q ∈ e.places, TidyAt q.1 q.2))

instance (e : Element) : Decidable e.EndsLines :=
  inferInstanceAs (Decidable (∀ q ∈ e.places, EndsLineAt q.1 q.2))

end Element

/-! ## Cutting tails -/

theorem codeFrom_layoutBefore (s : List Char) : codeFrom (layoutBefore s) = [] := by
  rw [codeFrom, List.dropWhile_eq_nil_iff]
  intro c hc
  exact List.mem_takeWhile_imp (p := (!isCode ·)) hc

/-- The tail of a new marker has the code that was cut off. -/
theorem codeFrom_blank_codeFrom (s : List Char) : codeFrom (' ' :: codeFrom s) = codeFrom s := by
  rw [codeFrom, List.dropWhile_cons_of_pos rfl, codeFrom]
  exact List.dropWhile_idempotent _ s

theorem hasNewline_eq_false {s : List Char} (h : '\n' ∉ s) : Text.hasNewline s = false := by
  rw [Text.hasNewline, List.contains_eq_mem, decide_eq_false_iff_not]
  exact h

/-- The newlines of a text whose code stays on its line are before the code. -/
theorem hasNewline_layoutBefore {s : List Char} (h : '\n' ∉ codeFrom s) :
    Text.hasNewline (layoutBefore s) = Text.hasNewline s := by
  conv_rhs => rw [← layoutBefore_append_codeFrom s, hasNewline_append, hasNewline_eq_false h,
    Bool.or_false]

theorem MarkerOutcome.beginAfter_concat (comments : List Element) (last : Element) :
    beginAfter (comments ++ [last]) =
      comments ++ [{ last with tail := String.ofList (layoutBefore last.tail.toList) },
        .marker (' ' :: codeFrom last.tail.toList)] := by
  simp [beginAfter]

namespace Element

/-! ## What adding a begin marker can do -/

/-- What becomes of an element and those after it, and how many markers are added. -/
inductive LineBegun (e : Element) : List Element → List Element → Nat → Prop
  | kept {after : List Element} (h : SettledAt e after) : LineBegun e after (e :: after) 0
  | cut {after : List Element} (hk : e.kind = .continuation)
      (hends : MarkerOptions.endsLine e.tail.toList after = true)
      (hcode : codeFrom e.tail.toList ≠ []) :
      LineBegun e after
        ({ e with tail := String.ofList (layoutBefore e.tail.toList) } ::
          marker (' ' :: codeFrom e.tail.toList) :: after) 1
  | afterComments {comments rest : List Element} {next : Element} (hk : e.kind = .continuation)
      (hcode : codeFrom e.tail.toList = []) (hcomments : ∀ c ∈ comments, c.isCommentLike = true)
      (hnext : next.isCommentLike = false) (hother : next.kind ≠ .continuation) :
      LineBegun e (comments ++ next :: rest)
        (e :: (MarkerOutcome.beginAfter comments ++ next :: rest)) 1

theorem with_own_tail (e : Element) :
    ({ e with tail := String.ofList e.tail.toList } : Element) = e := by
  cases e
  simp

theorem lineBegun_addBegin {e : Element} (hk : e.kind = .continuation) {after : List Element}
    (hends : MarkerOptions.endsLine e.tail.toList after = true) :
    ∃ t, (MarkerOutcome.addBegin e.tail.toList after).tail? = some t ∧
      (MarkerOutcome.addBegin e.tail.toList after).lead = [] ∧
      (MarkerOutcome.addBegin e.tail.toList after).removed = 0 ∧
      LineBegun e after
        ({ e with tail := String.ofList t } :: (MarkerOutcome.addBegin e.tail.toList after).after)
        (MarkerOutcome.addBegin e.tail.toList after).inserted := by
  have hself := with_own_tail e
  rw [MarkerOutcome.addBegin]
  by_cases hcode : codeFrom e.tail.toList = []
  swap
  · rw [if_pos (by simpa using hcode)]
    exact ⟨_, rfl, rfl, rfl, .cut hk hends hcode⟩
  rw [if_neg (by simp [hcode])]
  cases hrest : after.dropWhile isCommentLike with
  | nil =>
    refine ⟨_, rfl, rfl, rfl, ?_⟩
    rw [hself]
    refine .kept fun _ _ => ⟨hcode, fun k hm => ?_⟩
    rw [nextKind?, hrest] at hm
    cases hm
  | cons next rest =>
    by_cases hother : next.kind = .continuation
    · rw [if_neg (by simp [hother])]
      refine ⟨_, rfl, rfl, rfl, ?_⟩
      rw [hself]
      refine .kept fun _ _ => ⟨hcode, fun k hm => ?_⟩
      rw [nextKind?, hrest] at hm
      exact (Option.some.inj hm).symm.trans hother
    · rw [if_pos (by simpa using hother)]
      refine ⟨_, rfl, rfl, rfl, ?_⟩
      have hnext : next.isCommentLike = false := by
        have h := startsWithComment_dropWhile after
        rw [hrest] at h
        exact h
      have hbegun : LineBegun e (after.takeWhile isCommentLike ++ next :: rest) _ 1 :=
        .afterComments hk hcode (fun c hc => List.mem_takeWhile_imp hc) hnext hother
      rw [← hrest, List.takeWhile_append_dropWhile, hrest] at hbegun
      rw [hself]
      exact hbegun

variable {o : MarkerOptions}

/-- Adding begin markers to a list, one element at a time. -/
theorem lineBegun_cons (hadd : o.addBegin = true) (hrem : ∀ ends, o.removes ends = false)
    (e : Element) {r : Revision} (hlead : r.lead = []) :
    (Revision.cons o e (e.revise o) r).lead = [] ∧
      ∃ n, LineBegun (e.revised o) r.elements (Revision.cons o e (e.revise o) r).elements n ∧
        (Revision.cons o e (e.revise o) r).inserted = n + (e.revise o).inserted + r.inserted := by
  have hself : ({ e.revised o with tail := String.ofList e.tail.toList } : Element) = e.revised o :=
    with_own_tail (e.revised o)
  rw [Revision.cons, MarkerOptions.outcomeOf, hlead, List.append_nil]
  by_cases hk : e.kind = .continuation
  swap
  · rw [if_neg (by simpa using hk)]
    refine ⟨rfl, 0, ?_, rfl⟩
    have hkept : LineBegun (e.revised o) r.elements (e.revised o :: r.elements) 0 :=
      .kept fun h => absurd h hk
    exact hself.symm ▸ hkept
  rw [if_pos (by simpa using hk), MarkerOptions.outcome, hadd, hrem, Bool.and_true]
  cases hends : MarkerOptions.endsLine e.tail.toList r.elements with
  | false =>
    refine ⟨rfl, 0, ?_, rfl⟩
    have hkept : LineBegun (e.revised o) r.elements (e.revised o :: r.elements) 0 := by
      refine .kept fun _ h => ?_
      rw [show (e.revised o).tail = e.tail from rfl, hends] at h
      cases h
    exact hself.symm ▸ hkept
  | true =>
    obtain ⟨t, htail, hlead, _, hbegun⟩ := lineBegun_addBegin (e := e.revised o) hk hends
    rw [show (e.revised o).tail = e.tail from rfl] at htail hlead hbegun
    refine ⟨hlead, _, ?_, rfl⟩
    rw [if_pos rfl]
    simp only [htail]
    exact hbegun

/-! ## The result is settled -/

/-- Every place of a list is tidy and settled. -/
def Done (es : List Element) : Prop := ∀ q ∈ placesIn es, TidyAt q.1 q.2 ∧ SettledAt q.1 q.2

theorem done_cons {e : Element} {es : List Element} :
    Done (e :: es) ↔ (TidyAt e es ∧ SettledAt e es) ∧ Done e.children ∧ Done es :=
  forall_placesIn_cons

theorem done_nil : Done [] := by
  intro q hq
  cases hq

theorem Done.right {es fs : List Element} (h : Done (es ++ fs)) : Done fs :=
  fun q hq => h q (placesIn_append_right hq)

theorem not_marker_of_commentLike {e : Element} (h : e.isCommentLike = true) :
    e.kind ≠ .continuation := by
  intro hk
  rw [not_commentLike_of_marker hk] at h
  cases h

/-- What comes after a comment is of no account for it. -/
theorem done_append {es fs fs' : List Element} (hcomments : ∀ c ∈ es, c.isCommentLike = true)
    (h : Done (es ++ fs)) (h' : Done fs') : Done (es ++ fs') := by
  induction es with
  | nil => exact h'
  | cons e es ih =>
    rw [List.cons_append, done_cons] at h ⊢
    obtain ⟨⟨htidy, _⟩, hbelow, hrest⟩ := h
    have hk := not_marker_of_commentLike (hcomments e List.mem_cons_self)
    refine ⟨⟨⟨htidy.1, fun hm => absurd hm hk⟩, fun hm => absurd hm hk⟩, hbelow, ?_⟩
    exact ih (fun c hc => hcomments c (List.mem_cons_of_mem _ hc)) hrest

/-- A new marker ends no line. -/
theorem endsLine_begin {code : List Char} (hcode : '\n' ∉ code) {es : List Element}
    (hes : startsWithComment es = false) : MarkerOptions.endsLine (' ' :: code) es = false := by
  rw [endsLine_eq, hes, Bool.or_false]
  apply hasNewline_eq_false
  rw [List.mem_cons, not_or]
  exact ⟨by decide, hcode⟩

theorem done_cons_marker {s : List Char} {es : List Element} (hs : '\n' ∉ codeFrom s)
    (hes : startsWithComment es = false) (h : Done es) :
    Done (marker (' ' :: codeFrom s) :: es) := by
  have htail : (marker (' ' :: codeFrom s)).tail.toList = ' ' :: codeFrom s := by
    simp [marker]
  refine done_cons.mpr ⟨⟨⟨fun _ => ?_, fun _ _ => hes⟩, fun _ h => ?_⟩, done_nil, h⟩
  · rw [htail, codeFrom_blank_codeFrom]
    exact hs
  · rw [htail, endsLine_begin hs hes] at h
    cases h

/-- Comments with a begin marker after them: the tails that are left and what comes next. -/
theorem commentTails_beginAfter {init : List Element} {last : Element}
    (h : ∀ c ∈ init ++ [last], c.isCommentLike = true) (rest : List Element) :
    commentTails (MarkerOutcome.beginAfter (init ++ [last]) ++ rest) =
      init.map tail ++ [String.ofList (layoutBefore last.tail.toList)] := by
  have hlast : ({ last with tail := String.ofList (layoutBefore last.tail.toList) } :
      Element).isCommentLike = true := h last (by simp)
  rw [MarkerOutcome.beginAfter_concat, List.append_assoc,
    commentTails_append fun c hc => h c (List.mem_append_left _ hc), List.cons_append,
    List.cons_append, commentTails_cons_of_pos hlast,
    commentTails_cons_of_neg (not_commentLike_of_marker rfl)]

theorem nextKind?_beginAfter {comments : List Element} (h : ∀ c ∈ comments, c.isCommentLike = true)
    (rest : List Element) :
    nextKind? (MarkerOutcome.beginAfter comments ++ rest) = some .continuation := by
  rcases List.eq_nil_or_concat comments with rfl | ⟨init, last, rfl⟩
  · exact nextKind?_cons_of_neg (not_commentLike_of_marker rfl) rest
  · rw [List.concat_eq_append] at h ⊢
    have hlast : ({ last with tail := String.ofList (layoutBefore last.tail.toList) } :
        Element).isCommentLike = true := h last (by simp)
    rw [MarkerOutcome.beginAfter_concat, List.append_assoc,
      nextKind?_append fun c hc => h c (List.mem_append_left _ hc), List.cons_append,
      List.cons_append, nextKind?_cons_of_pos hlast,
      nextKind?_cons_of_neg (not_commentLike_of_marker rfl)]
    rfl

theorem done_beginAfter {comments rest : List Element} (h : ∀ c ∈ comments, c.isCommentLike = true)
    (hrest : startsWithComment rest = false) (hdone : Done (comments ++ rest)) :
    Done (MarkerOutcome.beginAfter comments ++ rest) := by
  rcases List.eq_nil_or_concat comments with rfl | ⟨init, last, rfl⟩
  · exact done_cons_marker (s := []) List.not_mem_nil hrest hdone
  · rw [List.concat_eq_append] at h hdone ⊢
    have hlast : last.isCommentLike = true := h last (by simp)
    have hk := not_marker_of_commentLike hlast
    rw [List.append_assoc] at hdone
    obtain ⟨⟨htidy, _⟩, hbelow, hafter⟩ := done_cons.mp hdone.right
    rw [MarkerOutcome.beginAfter_concat, List.append_assoc]
    refine done_append (fun c hc => h c (by simp [hc])) hdone
      (done_cons.mpr ⟨⟨⟨fun _ => ?_, ?_⟩, ?_⟩,
      hbelow, done_cons_marker (htidy.1 (Or.inr hlast)) hrest hafter⟩)
    · rw [String.toList_ofList, codeFrom_layoutBefore]
      exact List.not_mem_nil
    · exact fun hm => absurd hm hk
    · exact fun hm => absurd hm hk

/-- Each step keeps the elements tidy and leaves them settled. -/
theorem LineBegun.done {e : Element} {after es : List Element} {n : Nat}
    (h : LineBegun e after es n) (htidy : TidyAt e after) (hbelow : Done e.children)
    (hafter : Done after) : Done es := by
  cases h with
  | kept hsettled => exact done_cons.mpr ⟨⟨htidy, hsettled⟩, hbelow, hafter⟩
  | cut hk hends hcode =>
    have hnocode : codeFrom (String.ofList (layoutBefore e.tail.toList)).toList = [] := by
      rw [String.toList_ofList, codeFrom_layoutBefore]
    refine done_cons.mpr
      ⟨⟨⟨fun _ => ?_, fun _ h => absurd hnocode h⟩, fun _ _ => ⟨hnocode, ?_⟩⟩, hbelow,
      done_cons_marker (htidy.1 (Or.inl hk)) (htidy.2 hk hcode) hafter⟩
    · rw [hnocode]
      exact List.not_mem_nil
    · intro k hm
      rw [nextKind?_cons_of_neg (not_commentLike_of_marker rfl)] at hm
      exact (Option.some.inj hm).symm
  | afterComments hk hcode hcomments hnext hother =>
    refine done_cons.mpr ⟨⟨⟨htidy.1, fun _ h => absurd hcode h⟩, fun _ _ => ⟨hcode, ?_⟩⟩, hbelow,
      done_beginAfter hcomments hnext hafter⟩
    intro k hm
    rw [nextKind?_beginAfter hcomments] at hm
    exact (Option.some.inj hm).symm

/-- A marker before the elements finds after it what it would have found before the step. -/
theorem LineBegun.follow {e : Element} {after es : List Element} {n : Nat}
    (h : LineBegun e after es n) :
    commentTails es = commentTails (e :: after) ∧ nextKind? es = nextKind? (e :: after) := by
  cases h with
  | kept _ => exact ⟨rfl, rfl⟩
  | cut hk _ _ =>
    have he := not_commentLike_of_marker hk
    have he' : ({ e with tail := String.ofList (layoutBefore e.tail.toList) } :
        Element).isCommentLike = false := he
    rw [commentTails_cons_of_neg he', commentTails_cons_of_neg he, nextKind?_cons_of_neg he',
      nextKind?_cons_of_neg he]
    exact ⟨rfl, rfl⟩
  | afterComments hk _ _ _ _ =>
    have he := not_commentLike_of_marker hk
    exact ⟨(commentTails_cons_of_neg he _).trans (commentTails_cons_of_neg he _).symm,
      (nextKind?_cons_of_neg he _).trans (nextKind?_cons_of_neg he _).symm⟩

/-- What follows an element does not depend on what is below it. -/
theorem follow_congr {e e' : Element} {es es' : List Element} (hkind : e'.kind = e.kind)
    (htail : e'.tail = e.tail) (hcomments : commentTails es' = commentTails es)
    (hnext : nextKind? es' = nextKind? es) :
    commentTails (e' :: es') = commentTails (e :: es) ∧
      nextKind? (e' :: es') = nextKind? (e :: es) := by
  have hlike : e'.isCommentLike = e.isCommentLike := by
    rw [isCommentLike, isCommentLike, hkind]
  cases he : e.isCommentLike with
  | true =>
    rw [he] at hlike
    rw [commentTails_cons_of_pos hlike, commentTails_cons_of_pos he, nextKind?_cons_of_pos hlike,
      nextKind?_cons_of_pos he, htail, hcomments, hnext]
    exact ⟨rfl, rfl⟩
  | false =>
    rw [he] at hlike
    rw [commentTails_cons_of_neg hlike, commentTails_cons_of_neg he, nextKind?_cons_of_neg hlike,
      nextKind?_cons_of_neg he, hkind]
    exact ⟨rfl, rfl⟩

theorem startsWithComment_eq (es : List Element) :
    startsWithComment es = !(commentTails es).isEmpty := by
  cases es with
  | nil => rfl
  | cons e es =>
    cases he : e.isCommentLike with
    | true =>
      rw [commentTails_cons_of_pos he]
      exact he
    | false =>
      rw [commentTails_cons_of_neg he]
      exact he

theorem TidyAt.congr {e e' : Element} {es es' : List Element} (h : TidyAt e es)
    (hkind : e'.kind = e.kind) (htail : e'.tail = e.tail)
    (hcomments : commentTails es' = commentTails es) : TidyAt e' es' := by
  rw [TidyAt, isCommentLike, hkind, htail, startsWithComment_eq, hcomments, ← startsWithComment_eq]
  exact h

/-- What adding begin markers leaves of a list. -/
structure Begun (es : List Element) (r : Revision) : Prop where
  lead : r.lead = []
  comments : commentTails r.elements = commentTails es
  next : nextKind? r.elements = nextKind? es
  done : Done r.elements

theorem begun_reviseAll (hadd : o.addBegin = true) (hrem : ∀ ends, o.removes ends = false)
    {es : List Element} (htidy : ∀ q ∈ placesIn es, TidyAt q.1 q.2)
    (ih : ∀ e ∈ es, (∀ q ∈ placesIn e.children, TidyAt q.1 q.2) → Begun e.children (e.revise o)) :
    Begun es (reviseAll o {} es) := by
  induction es with
  | nil =>
    rw [reviseAll]
    exact ⟨rfl, rfl, rfl, done_nil⟩
  | cons e es ihes =>
    obtain ⟨hat, hbelow, hrest⟩ := forall_placesIn_cons.mp htidy
    have hr := ihes hrest fun d hd => ih d (List.mem_cons_of_mem _ hd)
    have hb := ih e List.mem_cons_self hbelow
    rw [reviseAll]
    generalize reviseAll o {} es = r at hr ⊢
    obtain ⟨hlead, n, hbegun, _⟩ := lineBegun_cons hadd hrem e hr.lead
    obtain ⟨hcomments, hnext⟩ := hbegun.follow
    -- A later element sees of those after it only the comments and the kind of what comes next, and
    -- neither changes when they are revised.
    have hfollow : commentTails (e.revised o :: r.elements) = commentTails (e :: es) ∧
        nextKind? (e.revised o :: r.elements) = nextKind? (e :: es) :=
      follow_congr rfl rfl hr.comments hr.next
    have hat' : TidyAt (e.revised o) r.elements := hat.congr rfl rfl hr.comments
    exact ⟨hlead, hcomments.trans hfollow.1, hnext.trans hfollow.2,
      hbegun.done hat' hb.done hr.done⟩

theorem begun_revise (hadd : o.addBegin = true) (hrem : ∀ ends, o.removes ends = false)
    (e : Element)
    (htidy : ∀ q ∈ placesIn e.children, TidyAt q.1 q.2) : Begun e.children (e.revise o) := by
  induction e using Element.induct with
  | h tag text tail cs ih =>
    rw [revise_mk]
    exact begun_reviseAll hadd hrem htidy ih

/-- Adding begin markers to a tidy tree leaves it tidy and settled. -/
theorem tidy_settled_revised (hadd : o.addBegin = true) (hrem : ∀ ends, o.removes ends = false)
    {e : Element} (h : e.Tidy) : (e.revised o).Tidy ∧ (e.revised o).Settled := by
  rw [Tidy, places_eq] at h
  have hdone := (begun_revise hadd hrem e h).done
  rw [Tidy, Settled, places_eq]
  exact ⟨fun q hq => (hdone q hq).1, fun q hq => (hdone q hq).2⟩

/-! ## The first code after a marker -/

/-- What is met first when reading on. -/
inductive Met where
  | nothing
  | marker
  | code
deriving DecidableEq, Repr

end Element

/-- The characters other than blanks, tabs and newlines, outside comments and directives. -/
def View.statements : View where
  reads := isCode
  skipsText := fun _ => false
  skipsContent := Kind.isCommentLike

namespace Element

/-- What is met first in a tail and the elements after it, where layout and the content of comments
and directives are passed over. -/
def met (t : List Char) : List Element → Met
  | [] => if (codeFrom t).isEmpty then .nothing else .code
  | e :: es =>
    if !(codeFrom t).isEmpty then .code
    else if e.kind == .continuation then .marker
    else if e.isCommentLike || (e.content .statements).isEmpty then met e.tail.toList es
    else .code

/-- Where nothing is to be added, code is met in the tails of comments only. -/
theorem met_ne_code_iff {t : List Char} {es : List Element} (ht : codeFrom t = [])
    (hnext : ∀ k ∈ nextKind? es, k = .continuation) :
    met t es ≠ .code ↔ ∀ s ∈ commentTails es, codeFrom s.toList = [] := by
  induction es generalizing t with
  | nil => simp [met, ht, commentTails]
  | cons e es ih =>
    rw [met, ht]
    cases he : e.isCommentLike with
    | false =>
      have hk : e.kind = .continuation := by
        rw [nextKind?_cons_of_neg he] at hnext
        exact hnext e.kind rfl
      simp [hk, commentTails_cons_of_neg he]
    | true =>
      have hk := not_marker_of_commentLike he
      rw [nextKind?_cons_of_pos he] at hnext
      rw [commentTails_cons_of_pos he, List.forall_mem_cons]
      by_cases hcode : codeFrom e.tail.toList = []
      · simp [hk, hcode, ih hcode hnext]
      · have hmet : met e.tail.toList es = .code := by
          cases es <;> simp [met, hcode]
        simp [hk, hcode, hmet]

/-- There is no code in a tail after a marker that adding begin markers does not look at. -/
def ReachedAt (e : Element) (after : List Element) : Prop :=
  e.kind = .continuation → ∀ t ∈ unreached after, codeFrom t.toList = []

/-- All code after markers is looked at when begin markers are added. -/
def Reached (e : Element) : Prop := ∀ q ∈ e.places, ReachedAt q.1 q.2

theorem reachedAt_of_not_startsWithComment (e : Element) {after : List Element}
    (h : startsWithComment after = false) : ReachedAt e after := by
  intro _ t ht
  rw [unreached_of_not_startsWithComment h] at ht
  cases ht

theorem reached_append {es : List Element} (hcomments : ∀ c ∈ es, c.isCommentLike = true)
    (fs : List Element) :
    (∀ q ∈ placesIn (es ++ fs), ReachedAt q.1 q.2) ↔
      (∀ c ∈ es, ∀ q ∈ placesIn c.children, ReachedAt q.1 q.2) ∧
        ∀ q ∈ placesIn fs, ReachedAt q.1 q.2 := by
  induction es with
  | nil => simp
  | cons e es ih =>
    have hat : ReachedAt e (es ++ fs) := fun hk =>
      absurd hk (not_marker_of_commentLike (hcomments e List.mem_cons_self))
    rw [List.cons_append, forall_placesIn_cons,
      ih fun c hc => hcomments c (List.mem_cons_of_mem _ hc), List.forall_mem_cons]
    constructor
    · rintro ⟨_, hbelow, hes, hfs⟩
      exact ⟨⟨hbelow, hes⟩, hfs⟩
    · rintro ⟨⟨hbelow, hes⟩, hfs⟩
      exact ⟨hat, hbelow, hes, hfs⟩

/-- A begin marker after comments takes the code out of the tail of the last one. -/
theorem reached_beginAfter {comments : List Element}
    (hcomments : ∀ c ∈ comments, c.isCommentLike = true)
    {rest : List Element} {next : Element} (hnext : next.isCommentLike = false)
    (hother : next.kind ≠ .continuation) :
    (∀ t ∈ unreached (MarkerOutcome.beginAfter comments ++ next :: rest), codeFrom t.toList = []) ↔
      ∀ t ∈ unreached (comments ++ next :: rest), codeFrom t.toList = [] := by
  have htails : commentTails (comments ++ next :: rest) = comments.map tail := by
    rw [commentTails_append hcomments, commentTails_cons_of_neg hnext, List.append_nil]
  have hkind : (nextKind? (comments ++ next :: rest)).any (· != .continuation) = true := by
    rw [nextKind?_append hcomments, nextKind?_cons_of_neg hnext]
    simpa using hother
  rw [unreached, unreached, nextKind?_beginAfter hcomments, hkind, htails]
  rcases List.eq_nil_or_concat comments with rfl | ⟨init, last, rfl⟩
  · rw [show commentTails (MarkerOutcome.beginAfter [] ++ next :: rest) = [] from
      commentTails_cons_of_neg (not_commentLike_of_marker rfl) _]
    rfl
  · rw [List.concat_eq_append] at hcomments ⊢
    rw [commentTails_beginAfter hcomments, Option.any_some, bne_self_eq_false,
      if_neg Bool.false_ne_true, if_pos rfl, List.map_append, List.map_singleton,
      List.dropLast_concat, List.forall_mem_append, List.forall_mem_singleton, String.toList_ofList]
    exact and_iff_left (codeFrom_layoutBefore _)

theorem placesIn_beginAfter {comments : List Element}
    (hcomments : ∀ c ∈ comments, c.isCommentLike = true) {rest : List Element}
    (hrest : startsWithComment rest = false) :
    (∀ q ∈ placesIn (MarkerOutcome.beginAfter comments ++ rest), ReachedAt q.1 q.2) ↔
      ∀ q ∈ placesIn (comments ++ rest), ReachedAt q.1 q.2 := by
  -- The new marker is followed by no comment and has nothing below it.
  have hmarker : ∀ s, (∀ q ∈ placesIn (marker s :: rest), ReachedAt q.1 q.2) ↔
      ∀ q ∈ placesIn rest, ReachedAt q.1 q.2 := by
    intro s
    rw [forall_placesIn_cons]
    refine ⟨fun h => h.2.2, fun h => ⟨reachedAt_of_not_startsWithComment _ hrest, ?_, h⟩⟩
    intro q hq
    cases hq
  rcases List.eq_nil_or_concat comments with rfl | ⟨init, last, rfl⟩
  · exact hmarker [' ']
  · rw [List.concat_eq_append] at hcomments ⊢
    have hcut : ∀ c ∈ init ++ [{ last with tail := String.ofList (layoutBefore last.tail.toList) }],
        c.isCommentLike = true := by
      intro c hc
      rcases List.mem_append.mp hc with hc | hc
      · exact hcomments c (List.mem_append_left _ hc)
      · rw [List.mem_singleton.mp hc]
        exact hcomments last (by simp)
    have hcons : ∀ s, init ++ [{ last with tail := String.ofList (layoutBefore last.tail.toList) },
        marker s] ++ rest =
          init ++ [{ last with tail := String.ofList (layoutBefore last.tail.toList) }] ++
          (marker s :: rest) := by
      simp
    rw [MarkerOutcome.beginAfter_concat, hcons, reached_append hcut, hmarker,
      reached_append hcomments, List.forall_mem_append, List.forall_mem_append,
      List.forall_mem_singleton, List.forall_mem_singleton]

theorem LineBegun.reached_iff {e : Element} {after es : List Element} {n : Nat}
    (h : LineBegun e after es n) (htidy : TidyAt e after) :
    (∀ q ∈ placesIn es, ReachedAt q.1 q.2) ↔ ∀ q ∈ placesIn (e :: after), ReachedAt q.1 q.2 := by
  cases h with
  | kept _ => rfl
  | cut hk _ hcode =>
    have hafter := htidy.2 hk hcode
    have hmarker : ∀ s, startsWithComment (marker s :: after) = false := fun _ => rfl
    rw [forall_placesIn_cons, forall_placesIn_cons, forall_placesIn_cons]
    refine ⟨fun h => ⟨reachedAt_of_not_startsWithComment e hafter, h.2.1, h.2.2.2.2⟩,
      fun h => ⟨reachedAt_of_not_startsWithComment _ (hmarker _), h.2.1,
        reachedAt_of_not_startsWithComment _ hafter, ?_, h.2.2⟩⟩
    intro q hq
    cases hq
  | @afterComments comments rest next hk hcode hcomments hnext hother =>
    have hstart : startsWithComment (next :: rest) = false := hnext
    rw [forall_placesIn_cons, forall_placesIn_cons, placesIn_beginAfter hcomments hstart,
      ReachedAt, ReachedAt, reached_beginAfter hcomments hnext hother]

theorem reached_reviseAll (hadd : o.addBegin = true) (hrem : ∀ ends, o.removes ends = false)
    {es : List Element} (htidy : ∀ q ∈ placesIn es, TidyAt q.1 q.2)
    (ih : ∀ e ∈ es, (∀ q ∈ placesIn e.children, TidyAt q.1 q.2) →
      ((∀ q ∈ placesIn (e.revise o).elements, ReachedAt q.1 q.2) ↔
        ∀ q ∈ placesIn e.children, ReachedAt q.1 q.2)) :
    (∀ q ∈ placesIn (reviseAll o {} es).elements, ReachedAt q.1 q.2) ↔
      ∀ q ∈ placesIn es, ReachedAt q.1 q.2 := by
  induction es with
  | nil => rw [reviseAll]
  | cons e es ihes =>
    obtain ⟨hat, hbelow, hrest⟩ := forall_placesIn_cons.mp htidy
    have hr := begun_reviseAll hadd hrem hrest fun d _ hd => begun_revise hadd hrem d hd
    have hreached := ihes hrest fun d hd => ih d (List.mem_cons_of_mem _ hd)
    rw [reviseAll]
    generalize reviseAll o {} es = r at hr hreached ⊢
    obtain ⟨_, n, hbegun, _⟩ := lineBegun_cons hadd hrem e hr.lead
    have hself : ReachedAt (e.revised o) r.elements ↔ ReachedAt e es := by
      rw [ReachedAt, ReachedAt, unreached, unreached, hr.comments, hr.next]
      rfl
    rw [hbegun.reached_iff (hat.congr rfl rfl hr.comments), forall_placesIn_cons,
      forall_placesIn_cons, hreached, hself]
    exact and_congr_right fun _ => and_congr_left fun _ => ih e List.mem_cons_self hbelow

/-- Adding begin markers does not change which code it does not look at. -/
theorem reached_revised (hadd : o.addBegin = true) (hrem : ∀ ends, o.removes ends = false)
    {e : Element} (h : e.Tidy) : (e.revised o).Reached ↔ e.Reached := by
  rw [Tidy, places_eq] at h
  rw [Reached, Reached, places_eq, places_eq]
  induction e using Element.induct with
  | h tag text tail cs ih =>
    refine reached_reviseAll hadd hrem h fun d hd hd' => ?_
    exact ih d hd hd'

end Element

open Forest

/-- Adding begin markers puts a marker before the first code after each marker that ends its line,
unless that code is in the tail of a comment or a directive and is not looked at: before another
comment, or with nothing or a marker after the comments. -/
theorem met_updateContinuation {e : Element} (h : e.Tidy) :
    ∃ m, updateContinuation .addBeginOnly root (ofElement e) = .ok m ∧
      ((∀ q ∈ m.forest.toElement.places, q.1.kind = .continuation →
          MarkerOptions.endsLine q.1.tail.toList q.2 = true →
          Element.met q.1.tail.toList q.2 ≠ .code) ↔
        e.Reached) := by
  have hrem : ∀ ends, MarkerOptions.addBeginOnly.removes ends = false := fun _ => rfl
  obtain ⟨_, _, _, helement⟩ := MarkerOptions.revise_root (o := .addBeginOnly) (fun _ => hrem)
    (holds_ofElement e) (e.id_shapeFrom 0)
  rw [toElement_ofElement] at helement
  refine ⟨_, rfl, ?_⟩
  rw [MarkerOptions.apply, if_neg (by decide), helement, ← Element.reached_revised rfl hrem h]
  obtain ⟨_, hsettled⟩ := Element.tidy_settled_revised rfl hrem h
  refine forall₂_congr fun q hq => imp_congr_right fun hk => ?_
  cases hends : MarkerOptions.endsLine q.1.tail.toList q.2 with
  | false =>
    rw [Element.endsLine_eq, Bool.or_eq_false_iff] at hends
    simp [Element.unreached_of_not_startsWithComment hends.2]
  | true =>
    obtain ⟨hcode, hnext⟩ := hsettled q hq hk hends
    have hmarker : (Element.nextKind? q.2).any (· != .continuation) = false := by
      cases hk : Element.nextKind? q.2 with
      | none => rfl
      | some k => simp [hnext k hk]
    rw [Element.met_ne_code_iff hcode hnext, Element.unreached, hmarker]
    simp

/-- A call over three lines with two comments after the first; the code of the second line begins in
the tail of a comment. -/
def commentedArguments : Element where
  tag := "file"
  children :=
    [{ tag := "call-stmt"
       text := "CALL FOO("
       tail := "\n"
       children :=
        [{ tag := "cnt", text := "&", tail := " " }, { tag := "C", text := "! a", tail := "\n" },
          { tag := "C", text := "! b", tail := "\n  A, " }, { tag := "arg", text := "B, " },
          { tag := "cnt", text := "&", tail := "\n  " }, { tag := "arg", text := "C)" }] }]

theorem met_updateContinuation_commentedArguments :
    commentedArguments.Tidy ∧
      ∃ m, updateContinuation .addBeginOnly root (ofElement commentedArguments) = .ok m ∧
        ((∀ q ∈ m.forest.toElement.places, q.1.kind = .continuation →
            MarkerOptions.endsLine q.1.tail.toList q.2 = true →
            Element.met q.1.tail.toList q.2 ≠ .code) ↔
          commentedArguments.Reached) :=
  ⟨by decide +kernel, met_updateContinuation (by decide +kernel)⟩

/-- The line of the closing parenthesis of the call gets no marker. -/
theorem met_updateContinuation_commentedCall :
    commentedCall.Tidy ∧
      ∃ m, updateContinuation .addBeginOnly root (ofElement commentedCall) = .ok m ∧
        m.report.inserted = 0 ∧
        ∃ q ∈ m.forest.toElement.places, q.1.kind = .continuation ∧
          MarkerOptions.endsLine q.1.tail.toList q.2 = true ∧
          Element.met q.1.tail.toList q.2 = .code := by
  refine ⟨by decide +kernel, _, rfl, by decide +kernel, ?_⟩
  decide +kernel

end FortranLayout
