import FortranLayout.Proofs.Markers.CommentRuns
import FortranLayout.Proofs.Markers.Revision

/-!
# The code that goes with removed markers

Removing a marker detaches it and the comments after it. Its own tail is handed to what is before
it, but not the tails of the comments, nor what is below the marker. `Element.lostFrom` reads off a
list of elements, from the first to the last, the code that this loses; `Element.loss_reviseAll`
says that the revision keeps everything else, in order.
-/

namespace FortranLayout

/-- The characters other than white space, outside the texts of markers and outside comments. -/
def View.outsideComments : View where
  reads := fun c => !Text.isWhitespace c
  skipsText := (· == .continuation)
  skipsContent := (· == .comment)

/-- `before` is `after` with the characters `lost` put in at some places. -/
structure Loss (before after lost : List Char) : Prop where
  sublist : List.Sublist after before
  perm : (after ++ lost).Perm before

namespace Loss

variable {before after lost before' after' lost' : List Char}

theorem none (s : List Char) : Loss s s [] :=
  ⟨List.Sublist.refl s, by simp⟩

theorem all (s : List Char) : Loss s [] s :=
  ⟨List.nil_sublist s, by simp⟩

theorem append (h : Loss before after lost) (h' : Loss before' after' lost') :
    Loss (before ++ before') (after ++ after') (lost ++ lost') := by
  refine ⟨h.sublist.append h'.sublist, ?_⟩
  have hmid : (after ++ after' ++ (lost ++ lost')).Perm (after ++ lost ++ (after' ++ lost')) := by
    rw [List.append_assoc, List.append_assoc]
    refine List.Perm.append_left after ?_
    rw [← List.append_assoc, ← List.append_assoc]
    exact List.Perm.append_right lost' List.perm_append_comm
  exact hmid.trans (h.perm.append h'.perm)

/-- Everything is kept exactly if nothing is lost. -/
theorem eq_iff (h : Loss before after lost) : after = before ↔ lost = [] := by
  have hlength := h.perm.length_eq
  rw [List.length_append] at hlength
  constructor
  · rintro rfl
    exact List.length_eq_zero_iff.mp (by omega)
  · rintro rfl
    exact h.sublist.eq_of_length (by simpa using hlength)

end Loss

/-- White space at the ends of a text is not read. -/
theorem filter_trim (s : List Char) :
    (Text.trim s).filter View.outsideComments.reads = s.filter View.outsideComments.reads := by
  have hdrop (t : List Char) : (t.dropWhile Text.isWhitespace).filter View.outsideComments.reads =
      t.filter View.outsideComments.reads := by
    induction t with
    | nil => rfl
    | cons c t ih =>
      by_cases hc : Text.isWhitespace c = true
      · rw [List.dropWhile_cons_of_pos hc, ih, List.filter_cons_of_neg]
        simp [View.outsideComments, hc]
      · rw [List.dropWhile_cons_of_neg hc]
  rw [Text.trim, List.filter_reverse, hdrop, List.filter_reverse, List.reverse_reverse, hdrop]

theorem hasNewline_append (s t : List Char) :
    Text.hasNewline (s ++ t) = (Text.hasNewline s || Text.hasNewline t) := by
  simp [Text.hasNewline]

theorem hasNewline_trim {s : List Char} (h : Text.hasNewline s = false) :
    Text.hasNewline (Text.trim s) = false := by
  rw [Text.hasNewline, List.contains_eq_mem, decide_eq_false_iff_not] at h ⊢
  intro hm
  have hmem := (List.dropWhile_sublist _).subset (List.mem_reverse.mp hm)
  exact h ((List.dropWhile_sublist _).subset (List.mem_reverse.mp hmem))

/-- Whether a marker with the given tail and elements after it goes. -/
def MarkerOptions.dropsMarker (o : MarkerOptions) (tail : List Char) (es : List Element) : Bool :=
  o.removes (endsLine tail es) && !(es.takeWhile Element.isCommentLike).any (·.kind == .directive)

namespace Element

mutual

/-- The code below an element that is lost. The text of a marker is not read, so code that is moved
there is lost. -/
def lostBelow (o : MarkerOptions) : Element → List Char
  | ⟨tag, _, _, cs⟩ => lostFrom o (Kind.ofTag tag != .continuation) false cs

/-- The code in a list of elements that is lost. `keeping` says that what is moved to the place
before the elements is kept; `dropping` says that comments here are removed with a marker before
them. -/
def lostFrom (o : MarkerOptions) (keeping dropping : Bool) : List Element → List Char
  | [] => []
  | e :: es =>
    if e.kind == .continuation then
      if o.dropsMarker e.tail.toList es then
        e.content .outsideComments ++
          ((if keeping then [] else View.outsideComments.read e.tail) ++
            lostFrom o keeping o.removeAll es)
      else lostBelow o e ++ lostFrom o true o.removeAll es
    else if e.kind == .comment then
      if dropping then View.outsideComments.read e.tail ++ lostFrom o false true es
      else lostFrom o true false es
    else lostBelow o e ++ lostFrom o true (dropping && e.kind == .directive) es

end

/-- The code of an element that is lost. -/
def lost (o : MarkerOptions) (e : Element) : List Char :=
  if e.kind == .comment then [] else e.lostBelow o

variable {o : MarkerOptions}

/-! ## The elements after a marker -/

theorem takeWhile_dropWhile_commentLike (es : List Element) :
    (es.dropWhile isCommentLike).takeWhile isCommentLike = [] := by
  induction es with
  | nil => rfl
  | cons e es ih =>
    by_cases h : e.isCommentLike = true
    · rw [List.dropWhile_cons_of_pos h, ih]
    · rw [List.dropWhile_cons_of_neg h, List.takeWhile_cons_of_neg h]

end Element

namespace MarkerOptions

open Element

variable {o : MarkerOptions}

/-! ## What becomes of a marker -/

/-- In the only other mode a removed marker has no comments after it. -/
theorem takeWhile_eq_nil_of_removes (hall : o.removeAll = false) {t : List Char} {es : List Element}
    (h : o.removes (endsLine t es) = true) :
    Text.hasNewline t = false ∧ es.takeWhile isCommentLike = [] := by
  rw [removes, hall, Bool.false_or, Bool.and_eq_true, Bool.not_eq_true', endsLine,
    Bool.or_eq_false_iff, Bool.not_eq_false', List.isEmpty_iff] at h
  exact h.2

/-- A marker that goes takes the comments after it along, and there is no directive among them. -/
theorem pruneComments_of_drops {t : List Char} {es : List Element} (h : o.dropsMarker t es = true) :
    pruneComments kind o.removeAll es = es.dropWhile isCommentLike := by
  rw [dropsMarker, Bool.and_eq_true, Bool.not_eq_true'] at h
  obtain ⟨hrem, hdir⟩ := h
  cases hall : o.removeAll with
  | true => exact pruneComments_of_not_leadsToDirective hdir
  | false =>
    obtain ⟨_, hnil⟩ := takeWhile_eq_nil_of_removes hall hrem
    have hsplit := List.takeWhile_append_dropWhile (p := isCommentLike) (l := es)
    rw [hnil, List.nil_append] at hsplit
    rw [hsplit]
    rfl

theorem outcome_of_drops (ho : o.addBegin = false) {t : List Char} {es : List Element}
    (h : o.dropsMarker t es = true) :
    o.outcome t es =
      { lead := Text.trim t ++ [' '], tail? := none, after := pruneComments kind o.removeAll es,
        removed := 1 } := by
  rw [pruneComments_of_drops h]
  rw [dropsMarker, Bool.and_eq_true, Bool.not_eq_true'] at h
  obtain ⟨hrem, hdir⟩ := h
  rw [outcome, ho, Bool.and_false, if_neg Bool.false_ne_true, if_pos hrem, MarkerOutcome.remove]
  simp only [hdir, Bool.false_eq_true, if_false]

theorem outcome_of_not_drops (ho : o.addBegin = false) {t : List Char} {es : List Element}
    (h : o.dropsMarker t es = false) :
    o.outcome t es = .stays t (pruneComments kind o.removeAll es) := by
  rw [outcome, ho, Bool.and_false, if_neg Bool.false_ne_true]
  by_cases hrem : o.removes (endsLine t es) = true
  · rw [dropsMarker, hrem, Bool.true_and, Bool.not_eq_false'] at h
    rw [if_pos hrem, MarkerOutcome.remove]
    simp only [h, if_true]
    cases hall : o.removeAll with
    | true => rfl
    | false =>
      obtain ⟨_, hnil⟩ := takeWhile_eq_nil_of_removes hall hrem
      rw [hnil] at h
      cases h
  · rw [if_neg hrem]
    have hall : o.removeAll = false := by
      rw [removes] at hrem
      cases hall : o.removeAll with
      | true => simp [hall] at hrem
      | false => rfl
    rw [hall]
    rfl

end MarkerOptions

namespace Element

variable {o : MarkerOptions}

/-- The revision of a list that begins with another element than a marker. -/
theorem cons_of_not_marker {e : Element} (he : e.kind ≠ .continuation) (r : Revision) :
    (Revision.cons o e (e.revise o) r).lead = [] ∧
      (Revision.cons o e (e.revise o) r).elements =
        { e.revised o with tail := String.ofList (e.tail.toList ++ r.lead) } :: r.elements := by
  rw [Revision.cons, MarkerOptions.outcomeOf, if_neg (by simpa using he)]
  exact ⟨rfl, rfl⟩

/-- The revision of a list that begins with a marker that goes. -/
theorem cons_of_drops (ho : o.addBegin = false) {e : Element} (he : e.kind = .continuation)
    {r : Revision} (h : o.dropsMarker (e.tail.toList ++ r.lead) r.elements = true) :
    (Revision.cons o e (e.revise o) r).lead = Text.trim (e.tail.toList ++ r.lead) ++ [' '] ∧
      (Revision.cons o e (e.revise o) r).elements = pruneComments kind o.removeAll r.elements := by
  rw [Revision.cons, MarkerOptions.outcomeOf, if_pos (by simpa using he),
    MarkerOptions.outcome_of_drops ho h]
  exact ⟨rfl, rfl⟩

/-- The revision of a list that begins with a marker that stays. -/
theorem cons_of_not_drops (ho : o.addBegin = false) {e : Element} (he : e.kind = .continuation)
    {r : Revision} (h : o.dropsMarker (e.tail.toList ++ r.lead) r.elements = false) :
    (Revision.cons o e (e.revise o) r).lead = [] ∧
      (Revision.cons o e (e.revise o) r).elements =
        { e.revised o with tail := String.ofList (e.tail.toList ++ r.lead) } ::
          pruneComments kind o.removeAll r.elements := by
  rw [Revision.cons, MarkerOptions.outcomeOf, if_pos (by simpa using he),
    MarkerOptions.outcome_of_not_drops ho h]
  exact ⟨rfl, rfl⟩

theorem not_commentLike_of_marker {e : Element} (he : e.kind = .continuation) :
    e.isCommentLike = false := by
  rw [isCommentLike, he]
  rfl

/-- The run of comments and directives at the beginning of a list has the same kinds after revision.
-/
theorem map_kind_takeWhile (ho : o.addBegin = false) (es : List Element) :
    ((reviseAll o {} es).elements.takeWhile isCommentLike).map kind =
      (es.takeWhile isCommentLike).map kind := by
  induction es with
  | nil => rfl
  | cons e es ih =>
    rw [reviseAll]
    by_cases he : e.kind = .continuation
    · have he' := not_commentLike_of_marker he
      rw [List.takeWhile_cons_of_neg (by simp [he'])]
      cases hdrops : o.dropsMarker (e.tail.toList ++ (reviseAll o {} es).lead)
          (reviseAll o {} es).elements with
      | true =>
        rw [(cons_of_drops ho he hdrops).2, MarkerOptions.pruneComments_of_drops hdrops,
          takeWhile_dropWhile_commentLike]
      | false =>
        have hneg : ¬ e.isCommentLike = true := by simp [he']
        rw [(cons_of_not_drops ho he hdrops).2, List.takeWhile_cons_of_neg (by exact hneg)]
    · rw [(cons_of_not_marker he _).2]
      by_cases hc : e.isCommentLike = true
      · rw [List.takeWhile_cons_of_pos hc, List.takeWhile_cons_of_pos (by exact hc), List.map_cons,
          List.map_cons, ih]
        rfl
      · rw [List.takeWhile_cons_of_neg hc, List.takeWhile_cons_of_neg (by exact hc)]

/-- What is moved before a list of elements is nothing, or what a removed marker leaves. -/
theorem lead_cases (ho : o.addBegin = false) (es : List Element) :
    (reviseAll o {} es).lead = [] ∨
      ∃ t after,
        o.dropsMarker t after = true ∧ (reviseAll o {} es).lead = Text.trim t ++ [' '] := by
  cases es with
  | nil => exact Or.inl rfl
  | cons e es =>
    rw [reviseAll]
    by_cases he : e.kind = .continuation
    · cases hdrops : o.dropsMarker (e.tail.toList ++ (reviseAll o {} es).lead)
          (reviseAll o {} es).elements with
      | true => exact Or.inr ⟨_, _, hdrops, (cons_of_drops ho he hdrops).1⟩
      | false => exact Or.inl (cons_of_not_drops ho he hdrops).1
    · exact Or.inl (cons_of_not_marker he _).1

/-- Where only the markers at beginnings of lines go, no newline is moved. -/
theorem hasNewline_lead (ho : o.addBegin = false) (hall : o.removeAll = false) (es : List Element) :
    Text.hasNewline (reviseAll o {} es).lead = false := by
  rcases lead_cases ho es with hlead | ⟨t, after, hdrops, hlead⟩
  · rw [hlead]
    rfl
  · rw [MarkerOptions.dropsMarker, Bool.and_eq_true] at hdrops
    obtain ⟨hnewline, _⟩ := MarkerOptions.takeWhile_eq_nil_of_removes hall hdrops.1
    rw [hlead, hasNewline_append, hasNewline_trim hnewline]
    rfl

/-- Whether a marker goes can be told from the elements after it as they were. -/
theorem dropsMarker_reviseAll (ho : o.addBegin = false) (t : List Char) (es : List Element) :
    o.dropsMarker (t ++ (reviseAll o {} es).lead) (reviseAll o {} es).elements =
      o.dropsMarker t es := by
  have hkinds := map_kind_takeWhile ho es
  have hdirective :
      ((reviseAll o {} es).elements.takeWhile isCommentLike).any (·.kind == .directive) =
      (es.takeWhile isCommentLike).any (·.kind == .directive) := by
    have h := congrArg (List.any · (· == .directive)) hkinds
    simpa only [List.any_map, Function.comp_def] using h
  have hempty : ((reviseAll o {} es).elements.takeWhile isCommentLike).isEmpty =
      (es.takeWhile isCommentLike).isEmpty := by
    have h := congrArg List.isEmpty hkinds
    simpa only [List.isEmpty_map] using h
  rw [MarkerOptions.dropsMarker, MarkerOptions.dropsMarker, hdirective]
  cases hall : o.removeAll with
  | true => simp [MarkerOptions.removes, hall]
  | false =>
    have hnewline := hasNewline_lead ho hall es
    have hends :
        MarkerOptions.endsLine (t ++ (reviseAll o {} es).lead) (reviseAll o {} es).elements =
        MarkerOptions.endsLine t es := by
      rw [MarkerOptions.endsLine, MarkerOptions.endsLine, hempty, hasNewline_append, hnewline,
        Bool.or_false]
    rw [hends]

/-! ## What the revision shows -/

/-- What is read of a revised list of elements, given what becomes of the text moved before it and
of the comments at its beginning. -/
def shown (keeping dropping : Bool) (r : Revision) : List Char :=
  (if keeping then r.lead.filter View.outsideComments.reads else []) ++
    (pruneComments kind dropping r.elements).flatMap (code .outsideComments)

theorem content_of_comment {e : Element} (he : e.kind = .comment) :
    e.content .outsideComments = [] := by
  rw [content, ownCode, he]
  rfl

/-- What is read of an element whose tail is continued, with what is after it. -/
theorem code_with_tail_append (e : Element) (t lead after : List Char) :
    ({ e with tail := String.ofList (t ++ lead) } : Element).code .outsideComments ++ after =
      e.content .outsideComments ++ (t.filter View.outsideComments.reads ++
        (lead.filter View.outsideComments.reads ++ after)) := by
  rw [code_with_tail, View.read_ofList, List.filter_append, List.append_assoc, List.append_assoc]

theorem shown_of_lead_nil {r : Revision} (h : r.lead = []) (keeping dropping : Bool) :
    shown keeping dropping r =
      (pruneComments kind dropping r.elements).flatMap (code .outsideComments) := by
  rw [shown, h]
  cases keeping <;> rfl

/-- An element that stays, before elements of which something is lost. -/
theorem loss_stays {e : Element} {es : List Element} {below rest : List Char} {dropping : Bool}
    {r : Revision}
    (hbelow : Loss (e.content .outsideComments) ((e.revised o).content .outsideComments) below)
    (hrest : Loss (es.flatMap (code .outsideComments)) (shown true dropping r) rest) :
    Loss ((e :: es).flatMap (code .outsideComments))
      (({ e.revised o with tail := String.ofList (e.tail.toList ++ r.lead) } ::
        pruneComments kind dropping r.elements).flatMap (code .outsideComments))
      (below ++ rest) := by
  have hloss := hbelow.append ((Loss.none (View.outsideComments.read e.tail)).append hrest)
  rw [List.flatMap_cons, List.flatMap_cons, code_with_tail_append, code_eq_content,
    List.append_assoc]
  exact hloss

/-- A marker that goes, before elements of which something is lost. -/
theorem loss_drops {e : Element} {es : List Element} {rest : List Char}
    {keeping dropping all : Bool} (hall : dropping = true → all = true) {r r' : Revision}
    (hlead : r'.lead = Text.trim (e.tail.toList ++ r.lead) ++ [' '])
    (helements : r'.elements = pruneComments kind all r.elements)
    (hrest : Loss (es.flatMap (code .outsideComments)) (shown keeping all r) rest) :
    Loss ((e :: es).flatMap (code .outsideComments)) (shown keeping dropping r')
      (e.content .outsideComments ++
        ((if keeping then [] else View.outsideComments.read e.tail) ++ rest)) := by
  have hread : r'.lead.filter View.outsideComments.reads =
      View.outsideComments.read e.tail ++ r.lead.filter View.outsideComments.reads := by
    rw [hlead, List.filter_append, filter_trim, List.filter_append]
    simp [View.read, View.outsideComments, Text.isWhitespace_of_ascii]
  rw [shown, helements, pruneComments_pruneComments hall, hread, List.flatMap_cons, code_eq_content,
    List.append_assoc]
  rw [shown] at hrest
  cases keeping with
  | true =>
    have hloss := (Loss.all (e.content .outsideComments)).append
      ((Loss.none (View.outsideComments.read e.tail)).append hrest)
    simpa using hloss
  | false =>
    exact (Loss.all (e.content .outsideComments)).append
      ((Loss.all (View.outsideComments.read e.tail)).append hrest)

/-- The revision of a list of elements loses what `lostFrom` says and nothing else. -/
theorem loss_reviseAll (ho : o.addBegin = false) (es : List Element)
    (hes : ∀ e ∈ es, e.kind ≠ .comment → Loss (e.content .outsideComments)
      ((e.revised o).content .outsideComments) (e.lostBelow o)) (keeping dropping : Bool)
    (hdropping : dropping = true → o.removeAll = true) :
    Loss (es.flatMap (code .outsideComments)) (shown keeping dropping (reviseAll o {} es))
      (lostFrom o keeping dropping es) := by
  induction es generalizing keeping dropping with
  | nil =>
    rw [reviseAll, lostFrom, shown_of_lead_nil rfl]
    cases dropping <;> exact Loss.none []
  | cons e es ih =>
    have ih' := ih fun d hd => hes d (List.mem_cons_of_mem _ hd)
    have hbelow := hes e List.mem_cons_self
    rw [reviseAll, lostFrom]
    by_cases hmarker : e.kind = .continuation
    · rw [if_pos (by simpa using hmarker)]
      have hinput := dropsMarker_reviseAll ho e.tail.toList es
      cases hdrops : o.dropsMarker e.tail.toList es with
      | true =>
        obtain ⟨hlead, helements⟩ := cons_of_drops ho hmarker (hinput.trans hdrops)
        rw [if_pos rfl]
        exact loss_drops hdropping hlead helements (ih' keeping o.removeAll id)
      | false =>
        obtain ⟨hlead, helements⟩ := cons_of_not_drops ho hmarker (hinput.trans hdrops)
        rw [if_neg Bool.false_ne_true, shown_of_lead_nil hlead, helements,
          pruneComments_cons_of_not_commentLike (by exact not_commentLike_of_marker hmarker)]
        exact loss_stays (hbelow (by simp [hmarker])) (ih' true o.removeAll id)
    · obtain ⟨hlead, helements⟩ := cons_of_not_marker (o := o) hmarker (reviseAll o {} es)
      rw [if_neg (by simpa using hmarker), shown_of_lead_nil hlead, helements]
      by_cases hcomment : e.kind = .comment
      · rw [if_pos (by simpa using hcomment)]
        cases dropping with
        | true =>
          rw [if_pos rfl, pruneComments_cons_comment (by exact hcomment), List.flatMap_cons,
            code_eq_content, content_of_comment hcomment]
          exact (Loss.all _).append (ih' false true hdropping)
        | false =>
          have hcontent : Loss (e.content .outsideComments)
              ((e.revised o).content .outsideComments) [] := by
            rw [content_of_comment hcomment, content_of_comment (by exact hcomment)]
            exact Loss.none []
          exact loss_stays hcontent (ih' true false hdropping)
      · rw [if_neg (by simpa using hcomment), pruneComments_cons (by exact hcomment)]
        refine loss_stays (hbelow hcomment) (ih' true _ fun hd => hdropping ?_)
        rw [Bool.and_eq_true] at hd
        exact hd.1

/-- What is read before the children of an element that is no comment: nothing at a marker. -/
theorem content_mk {tag : String} (h : Kind.ofTag tag ≠ .comment) (text tail : String)
    (cs : List Element) :
    content .outsideComments ⟨tag, text, tail, cs⟩ =
      (if Kind.ofTag tag != .continuation then View.outsideComments.read text else []) ++
        cs.flatMap (code .outsideComments) := by
  have hskip : View.outsideComments.skipsContent (Kind.ofTag tag) = false := by
    simpa [View.outsideComments] using h
  simp only [content, ownCode, kind, hskip, Bool.false_or, Bool.false_eq_true, if_false]
  cases hk : Kind.ofTag tag == .continuation <;> simp [View.outsideComments, bne, hk]

theorem loss_content (ho : o.addBegin = false) (e : Element) (he : e.kind ≠ .comment) :
    Loss (e.content .outsideComments) ((e.revised o).content .outsideComments) (e.lostBelow o) := by
  induction e using Element.induct with
  | h tag text tail cs ih =>
    have hloss := loss_reviseAll ho cs ih (Kind.ofTag tag != .continuation) false (by simp)
    rw [revised, revise_mk, content_mk he, content_mk he, lostBelow]
    rw [shown] at hloss
    cases hk : Kind.ofTag tag != .continuation with
    | true =>
      rw [hk] at hloss
      have htext := (Loss.none (View.outsideComments.read text)).append hloss
      simpa [pruneComments] using htext
    | false =>
      rw [hk] at hloss
      exact hloss

/-- The revision of an element keeps its code but for what `lost` says. -/
theorem loss_revised (ho : o.addBegin = false) (e : Element) :
    Loss (e.code .outsideComments) ((e.revised o).code .outsideComments) (e.lost o) := by
  have htail := Loss.none (View.outsideComments.read e.tail)
  rw [code_eq_content, code_eq_content, lost]
  by_cases he : e.kind = .comment
  · rw [if_pos (by simpa using he), content_of_comment he, content_of_comment (by exact he)]
    exact htail
  · rw [if_neg (by simpa using he)]
    have hloss := (loss_content ho e he).append htail
    rw [List.append_nil] at hloss
    exact hloss

end Element

end FortranLayout
