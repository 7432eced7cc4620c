import FortranLayout.Proofs.Markers.Visits

/-!
# Taking begin markers out again

A list of elements is *opened* when begin markers have been put in, each directly after an element
whose tail it continues. Removing the markers that end no line takes exactly those out again,
provided that every other marker ends its line.
-/

namespace FortranLayout

/-- The newlines of a text and whatever is not white space. -/
def lineContent (s : List Char) : List Char := s.filter fun c => c == '\n' || !Text.isWhitespace c

theorem lineContent_append (s t : List Char) :
    lineContent (s ++ t) = lineContent s ++ lineContent t :=
  List.filter_append s t

/-- On a single line white space does not count. -/
theorem lineContent_of_no_newline {s : List Char} (h : '\n' ∉ s) :
    lineContent s = s.filter View.outsideComments.reads := by
  refine List.filter_congr fun c hc => ?_
  have hne : (c == '\n') = false := by
    rw [beq_eq_false_iff_ne]
    rintro rfl
    exact h hc
  rw [hne, Bool.false_or]
  rfl

/-- What a removed marker hands on is what it was given. -/
theorem lineContent_trim {code : List Char} (h : '\n' ∉ code) :
    lineContent (Text.trim (' ' :: code) ++ [' ']) = lineContent code := by
  have hblank : '\n' ∉ ' ' :: code := by
    rw [List.mem_cons, not_or]
    exact ⟨by decide, h⟩
  have htrim : '\n' ∉ Text.trim (' ' :: code) := by
    have hnone := hasNewline_trim (s := ' ' :: code) (by simpa [Text.hasNewline] using hblank)
    simpa [Text.hasNewline] using hnone
  rw [lineContent_append, lineContent_of_no_newline htrim, filter_trim, lineContent_of_no_newline h]
  have hdrop : (' ' :: code).filter View.outsideComments.reads =
      code.filter View.outsideComments.reads := List.filter_cons_of_neg (by decide)
  rw [hdrop]
  exact List.append_nil _

namespace Element

mutual

/-- An element in whose tails only newlines and what is not white space are left. -/
def bare : Element → Element
  | ⟨tag, text, tail, cs⟩ => ⟨tag, text, String.ofList (lineContent tail.toList), bareAll cs⟩

/-- The same for each element of a list. -/
def bareAll : List Element → List Element
  | [] => []
  | e :: es => e.bare :: bareAll es

end

theorem bareAll_eq (es : List Element) : bareAll es = es.map bare := by
  induction es with
  | nil => rfl
  | cons e es ih => rw [bareAll, ih, List.map_cons]

theorem bare_eq (e : Element) :
    e.bare =
      ⟨e.tag, e.text, String.ofList (lineContent e.tail.toList), e.children.map bare⟩ := by
  obtain ⟨tag, text, tail, cs⟩ := e
  rw [bare, bareAll_eq]

/-! ## Opened lists -/

/-- The second list is the first with so many begin markers put in, at any depth. -/
inductive Opened : List Element → List Element → Nat → Prop
  | nil : Opened [] [] 0
  | kept {e : Element} {cs es es' : List Element} {j k : Nat} (below : Opened e.children cs j)
      (after : Opened es es' k) : Opened (e :: es) ({ e with children := cs } :: es') (j + k)
  | begun {e : Element} {cs es es' : List Element} {j k : Nat} {layout code : List Char}
      (htail : e.tail.toList = layout ++ code) (hcode : '\n' ∉ code)
      (hnext : startsWithComment es' = false) (below : Opened e.children cs j)
      (after : Opened es es' k) :
      Opened (e :: es)
        ({ e with children := cs, tail := String.ofList layout } :: marker (' ' :: code) :: es')
        (j + k + 1)

/-- An opened list begins with an element of the same kind. -/
theorem Opened.startsWithComment_eq {es es' : List Element} {k : Nat} (h : Opened es es' k) :
    startsWithComment es' = startsWithComment es := by
  cases h with
  | nil => rfl
  | kept _ _ => rfl
  | begun _ _ _ _ _ => rfl

/-- A begin marker may be put after comments, where no marker follows them. -/
theorem Opened.beginAfter {comments : List Element} (hne : comments ≠ [])
    (hcomments : ∀ c ∈ comments, c.isCommentLike = true)
    (htidy : ∀ c ∈ comments, '\n' ∉ codeFrom c.tail.toList) {next : Element}
    (hnext : next.isCommentLike = false) (hother : next.kind ≠ .continuation)
    {es rest : List Element} {k : Nat} (h : Opened es (comments ++ next :: rest) k) :
    Opened es (MarkerOutcome.beginAfter comments ++ next :: rest) (k + 1) := by
  induction comments generalizing es k with
  | nil => exact absurd rfl hne
  | cons c comments ih =>
    cases comments with
    | nil =>
      have hsplit := (layoutBefore_append_codeFrom c.tail.toList).symm
      cases h with
      | kept below after => exact .begun hsplit (htidy _ List.mem_cons_self) hnext below after
      | begun _ _ _ _ _ => exact absurd rfl hother
    | cons d comments =>
      have hd : d.isCommentLike = true := hcomments d (by simp)
      rw [List.cons_append] at h
      have hrest : ∀ b ∈ d :: comments, b ∈ c :: d :: comments :=
        fun b hb => List.mem_cons_of_mem c hb
      have ih' : ∀ {es : List Element} {k : Nat}, Opened es (d :: comments ++ next :: rest) k →
          Opened es (MarkerOutcome.beginAfter (d :: comments) ++ next :: rest) (k + 1) :=
        ih (by simp) (fun b hb => hcomments b (hrest b hb)) (fun b hb => htidy b (hrest b hb))
      cases h with
      | @kept _ _ _ _ j k below after =>
        rw [Nat.add_assoc]
        exact .kept below (ih' after)
      | begun _ _ _ _ _ => cases hd

variable {o : MarkerOptions}

theorem revised_of_lead {e : Element} (h : (e.revise o).lead = []) :
    e.revised o = { e with children := (e.revise o).elements } := by
  rw [revised, h]
  simp

/-- Each step of adding begin markers opens the list. -/
theorem LineBegun.opened {e : Element} {cs es after es' : List Element} {j k n : Nat}
    (h : LineBegun { e with children := cs } after es' n) (htidy : TidyAt e after)
    (hafter : Done after) (hbelow : Opened e.children cs j) (hes : Opened es after k) :
    Opened (e :: es) es' (n + j + k) := by
  cases h with
  | kept _ =>
    rw [Nat.zero_add]
    exact .kept hbelow hes
  | cut hk hends hcode =>
    rw [show 1 + j + k = j + k + 1 by omega]
    exact .begun (layoutBefore_append_codeFrom _).symm (htidy.1 (Or.inl hk))
      (htidy.2 hk hcode) hbelow hes
  | @afterComments comments rest next hk hcode hcomments hnext hother =>
    by_cases hne : comments = []
    · subst hne
      rw [show 1 + j + k = j + k + 1 by omega]
      have hopened : Opened (e :: es)
          ({ e with children := cs, tail := String.ofList e.tail.toList } ::
            marker [' '] :: next :: rest) (j + k + 1) :=
        .begun (List.append_nil _).symm List.not_mem_nil hnext hbelow hes
      rw [String.ofList_toList] at hopened
      exact hopened
    · rw [show 1 + j + k = j + (k + 1) by omega]
      refine .kept hbelow (hes.beginAfter hne hcomments ?_ hnext hother)
      intro c hc
      obtain ⟨pre, post, rfl⟩ := List.append_of_mem hc
      have hplace := split_mem_placesIn pre c (post ++ next :: rest)
      rw [← List.cons_append, ← List.append_assoc] at hplace
      exact (hafter _ hplace).1.1 (Or.inr (hcomments c hc))

theorem opened_reviseAll (hadd : o.addBegin = true) (hrem : ∀ ends, o.removes ends = false)
    {es : List Element} (htidy : ∀ q ∈ placesIn es, TidyAt q.1 q.2)
    (ih : ∀ e ∈ es, (∀ q ∈ placesIn e.children, TidyAt q.1 q.2) →
      Opened e.children (e.revise o).elements (e.revise o).inserted) :
    Opened es (reviseAll o {} es).elements (reviseAll o {} es).inserted := by
  induction es with
  | nil =>
    rw [reviseAll]
    exact .nil
  | cons e es ihes =>
    obtain ⟨hat, hbelow, hrest⟩ := forall_placesIn_cons.mp htidy
    have hr := begun_reviseAll hadd hrem hrest fun d _ hd => begun_revise hadd hrem d hd
    have hes := ihes hrest fun d hd => ih d (List.mem_cons_of_mem _ hd)
    rw [reviseAll]
    generalize reviseAll o {} es = r at hr hes ⊢
    obtain ⟨_, n, hbegun, hinserted⟩ := lineBegun_cons hadd hrem e hr.lead
    rw [revised_of_lead (begun_revise hadd hrem e hbelow).lead] at hbegun
    rw [hinserted]
    exact hbegun.opened (hat.congr rfl rfl hr.comments) hr.done (ih e List.mem_cons_self hbelow) hes

/-- Adding begin markers opens what is below an element. -/
theorem opened_revise (hadd : o.addBegin = true) (hrem : ∀ ends, o.removes ends = false)
    (e : Element) (htidy : ∀ q ∈ placesIn e.children, TidyAt q.1 q.2) :
    Opened e.children (e.revise o).elements (e.revise o).inserted := by
  induction e using Element.induct with
  | h tag text tail cs ih =>
    rw [revise_mk]
    exact opened_reviseAll hadd hrem htidy ih

/-! ## Closing again -/

/-- The revision of a list that begins with an element that ends its line, or with no marker. -/
theorem cons_removeBegin {e : Element} {below after : Revision}
    (h : e.kind = .continuation →
      MarkerOptions.endsLine (e.tail.toList ++ after.lead) after.elements = true) :
    Revision.cons .removeBeginOnly e below after =
      { lead := []
        elements :=
          { e with
            text := e.text ++ String.ofList below.lead
            tail := String.ofList (e.tail.toList ++ after.lead)
            children := below.elements } :: after.elements
        inserted := 0 + below.inserted + after.inserted
        removed := 0 + below.removed + after.removed } := by
  have hstays : MarkerOptions.removeBeginOnly.outcomeOf e.kind (e.tail.toList ++ after.lead)
      after.elements = .stays (e.tail.toList ++ after.lead) after.elements := by
    rw [MarkerOptions.outcomeOf]
    split
    · rename_i hk
      rw [MarkerOptions.outcome, h (beq_iff_eq.mp hk)]
      rfl
    · rfl
  rw [Revision.cons, hstays]
  rfl

theorem revise_marker (s : List Char) : (marker s).revise o = {} := by
  rw [marker, revise_mk, reviseAll]

/-- A marker that ends no line is removed. -/
theorem cons_removeBegin_marker {code : List Char} (hcode : '\n' ∉ code) {r : Revision}
    (hlead : r.lead = []) (hnext : startsWithComment r.elements = false) :
    Revision.cons .removeBeginOnly (marker (' ' :: code)) {} r =
      { lead := Text.trim (' ' :: code) ++ [' ']
        elements := r.elements
        inserted := 0 + 0 + r.inserted
        removed := 1 + 0 + r.removed } := by
  have hrem : MarkerOptions.removeBeginOnly.removes
      (MarkerOptions.endsLine (' ' :: code) r.elements) = true := by
    rw [endsLine_begin hcode hnext]
    rfl
  have hdrops : MarkerOptions.removeBeginOnly.dropsMarker (' ' :: code) r.elements = true := by
    rw [MarkerOptions.dropsMarker, hrem, (MarkerOptions.takeWhile_eq_nil_of_removes rfl hrem).2]
    rfl
  have htail : (marker (' ' :: code)).tail.toList ++ r.lead = ' ' :: code := by
    simp [marker, hlead]
  have hk : ((marker (' ' :: code)).kind == .continuation) = true := by
    show (Kind.ofTag "cnt" == .continuation) = true
    decide
  rw [Revision.cons, htail, MarkerOptions.outcomeOf, if_pos hk,
    MarkerOptions.outcome_of_drops rfl hdrops]
  rfl

/-- What removing begin markers leaves of an opened list. -/
structure Closed (es : List Element) (k : Nat) (r : Revision) : Prop where
  lead : r.lead = []
  elements : r.elements.map bare = es.map bare
  removed : r.removed = k

theorem startsWithComment_of_bare {es es' : List Element} (h : es'.map bare = es.map bare) :
    startsWithComment es' = startsWithComment es := by
  cases es with
  | nil =>
    rw [List.map_nil, List.map_eq_nil_iff] at h
    rw [h]
  | cons e es =>
    obtain ⟨e', rest, rfl, he, _⟩ := List.map_eq_cons_iff.mp h
    have htag : e'.tag = e.tag := by
      simpa [bare_eq] using congrArg Element.tag he
    simp [startsWithComment, isCommentLike, kind, htag]

/-- An element that stays, with what is handed on to its tail. -/
theorem closed_cons {e : Element} {t : String} {cs es : List Element} {j k : Nat}
    {below after : Revision} (hbelow : Closed e.children j below)
    (hafter : after.elements.map bare = es.map bare) (hremoved : after.removed = k)
    (hstays : e.kind = .continuation →
      MarkerOptions.endsLine (t.toList ++ after.lead) after.elements = true)
    (htail : lineContent (t.toList ++ after.lead) = lineContent e.tail.toList) :
    Closed (e :: es) (j + k)
      (Revision.cons .removeBeginOnly { e with tail := t, children := cs } below after) := by
  rw [cons_removeBegin hstays]
  refine ⟨rfl, ?_, ?_⟩
  · rw [List.map_cons, List.map_cons, hafter, bare_eq, bare_eq e, hbelow.lead, hbelow.elements]
    simp [htail]
  · show 0 + below.removed + after.removed = j + k
    rw [hbelow.removed, hremoved, Nat.zero_add]

/-- Removing begin markers takes out exactly those that were put in. -/
theorem Opened.closed {es es' : List Element} {k : Nat} (h : Opened es es' k)
    (hends : ∀ q ∈ placesIn es, EndsLineAt q.1 q.2) :
    Closed es k (reviseAll .removeBeginOnly {} es') := by
  induction h with
  | nil =>
    rw [reviseAll]
    exact ⟨rfl, rfl, rfl⟩
  | @kept e cs es es' j k _ _ ihbelow ihafter =>
    obtain ⟨hat, hbelow, hafter⟩ := forall_placesIn_cons.mp hends
    have hes := ihafter hafter
    rw [reviseAll, revise_mk]
    refine closed_cons (ihbelow hbelow) hes.elements hes.removed ?_ ?_
    · intro hk
      rw [hes.lead, List.append_nil, endsLine_eq, startsWithComment_of_bare hes.elements,
        ← endsLine_eq]
      exact hat hk
    · rw [hes.lead, List.append_nil]
  | @begun e cs es es' j k layout code htail hcode hnext _ after ihbelow ihafter =>
    obtain ⟨hat, hbelow, hafter⟩ := forall_placesIn_cons.mp hends
    have hes := ihafter hafter
    have hstart : startsWithComment (reviseAll .removeBeginOnly {} es').elements = false := by
      rw [startsWithComment_of_bare hes.elements, ← after.startsWithComment_eq, hnext]
    have hmarker := cons_removeBegin_marker hcode hes.lead hstart
    have hremoved : 1 + 0 + (reviseAll .removeBeginOnly {} es').removed = k + 1 := by
      rw [hes.removed]
      omega
    rw [reviseAll, reviseAll, revise_mk, revise_marker, hmarker, Nat.add_assoc]
    -- The marker hands the code that was cut off back to the tail before it.
    refine closed_cons (ihbelow hbelow) hes.elements hremoved ?_ ?_
    · intro hk
      have hnewline := hat hk
      rw [endsLine_eq, ← after.startsWithComment_eq, hnext, Bool.or_false, htail, hasNewline_append,
        hasNewline_eq_false hcode, Bool.or_false] at hnewline
      rw [endsLine_eq, String.toList_ofList, hasNewline_append, hnewline,
        Bool.true_or, Bool.true_or]
    · rw [String.toList_ofList, lineContent_append, lineContent_trim hcode, htail,
        lineContent_append]

/-- Both passes, one after the other. -/
theorem closed_revised (hadd : o.addBegin = true) (hrem : ∀ ends, o.removes ends = false)
    {e : Element} (htidy : e.Tidy) (hends : e.EndsLines) :
    ((e.revised o).revise .removeBeginOnly).removed = (e.revise o).inserted ∧
      ((e.revised o).revised .removeBeginOnly).bare = e.bare := by
  rw [Tidy, places_eq] at htidy
  rw [EndsLines, places_eq] at hends
  have hclosed := (opened_revise hadd hrem e htidy).closed hends
  have hlead := (begun_revise hadd hrem e htidy).lead
  have hrevise : (e.revised o).revise .removeBeginOnly =
      reviseAll .removeBeginOnly {} (e.revise o).elements := revise_mk _ _ _ _ _
  refine ⟨?_, ?_⟩
  · rw [hrevise]
    exact hclosed.removed
  · rw [bare_eq, bare_eq e, revised, hrevise, hclosed.lead, revised_of_lead hlead]
    simp [hclosed.elements]

end Element

open Forest

/-! ## Back in the store -/

/-- Where a store has grown and the tree in it is the old one up to layout in tails, every old node
is as it was. -/
theorem Forest.Grown.restored {f g : Forest} (hgrown : f.Grown g) {s t : Shape} (hs : f.Carries s)
    (ht : g.Carries t) (hid : t.id = s.id)
    (hbare : (g.elementOf t).bare = (f.elementOf s).bare) {i : Nat}
    (hi : i ∈ s.preorder) :
    g.children i = f.children i ∧ g.tag i = f.tag i ∧ g.text i = f.text i ∧
      lineContent (g.tail i).toList = lineContent (f.tail i).toList := by
  induction s using Shape.induct generalizing t with
  | h j cs ih =>
    obtain ⟨j', ts⟩ := t
    obtain rfl : j' = j := hid
    obtain ⟨_, hf, hcs⟩ := carries_node.mp hs
    obtain ⟨_, hg, hts⟩ := carries_node.mp ht
    rw [elementOf_node, elementOf_node, Element.bare_eq, Element.bare_eq, Element.mk.injEq] at hbare
    obtain ⟨htag, htext, htail, hbelow⟩ := hbare
    have hlength : ts.length = cs.length := by
      simpa using congrArg List.length hbelow
    -- The old children are in their order among the new ones, and there are no more than before.
    have hids : ts.map Shape.id = cs.map Shape.id := by
      have hold := hgrown.children_eq j'
      rw [hf, hg] at hold
      have hall : (ts.map Shape.id).filter (· < f.size) = ts.map Shape.id := by
        rw [List.filter_eq_self, ← List.length_filter_eq_length_iff, hold]
        simp [hlength]
      rw [← hall, hold]
    rw [Shape.preorder_node, List.mem_cons, List.mem_flatMap] at hi
    rcases hi with rfl | ⟨c, hc, hi⟩
    · refine ⟨by rw [hf, hg, hids], htag, htext, String.ofList_inj.mp htail⟩
    · obtain ⟨k, hk, rfl⟩ := List.getElem_of_mem hc
      have hk' : k < ts.length := hlength ▸ hk
      refine ih cs[k] hc (hcs _ hc) (hts ts[k] (List.getElem_mem hk')) ?_ ?_ hi
      · have := congrArg (·[k]?) hids
        simpa [hk, hk'] using this
      · have := congrArg (·[k]?) hbelow
        simpa [hk, hk'] using this

/-- Removing begin markers undoes adding them: in a tidy tree in which every marker ends its line,
the same number goes as came, and every node has its children, its tag and its text back, and its
tail up to white space other than newlines. -/
theorem updateContinuation_addBegin_removeBegin {e : Element} (htidy : e.Tidy)
    (hends : e.EndsLines) :
    ∃ m₁ m₂, updateContinuation .addBeginOnly root (ofElement e) = .ok m₁ ∧
      updateContinuation .removeBeginOnly root m₁.forest = .ok m₂ ∧
      m₂.report.removed = m₁.report.inserted ∧
      ∀ i < (ofElement e).size,
        m₂.forest.children i = (ofElement e).children i ∧ m₂.forest.tag i = (ofElement e).tag i ∧
          m₂.forest.text i = (ofElement e).text i ∧
          lineContent (m₂.forest.tail i).toList = lineContent ((ofElement e).tail i).toList := by
  have hkeep : ∀ ends, MarkerOptions.addBeginOnly.removes ends = false := fun _ => rfl
  have hdrop : MarkerOptions.removeBeginOnly.Consistent := fun h => by cases h
  obtain ⟨hremoved, hbare⟩ := Element.closed_revised rfl hkeep htidy hends
  obtain ⟨s₁, hs₁, hadd⟩ := MarkerDraft.revise_spec_root (o := .addBeginOnly) (fun _ => hkeep)
    (holds_ofElement e) (e.id_shapeFrom 0)
  obtain ⟨s₂, hs₂, hrem⟩ := MarkerDraft.revise_spec_root hdrop hadd.reshaped.holds hs₁
  rw [hadd.element_eq, elementOf_ofElement] at hrem
  refine ⟨_, _, rfl, rfl, ?_, fun i hi => ?_⟩
  · have hcame := hadd.inserted_eq
    rw [elementOf_ofElement, ← hremoved] at hcame
    exact hrem.removed_eq.trans hcame.symm
  · refine (grown_add_remove (keepsMarkers_ofElement htidy hends) root).restored
      (holds_ofElement e).carries hrem.reshaped.holds.carries ?_ ?_ (mem_preorder_of_lt hi)
    · rw [hs₂, e.id_shapeFrom]
      rfl
    · rw [hrem.element_eq, hbare, elementOf_ofElement]

theorem updateContinuation_addBegin_removeBegin_commentedArguments :
    commentedArguments.Tidy ∧ commentedArguments.EndsLines ∧
      ∃ m₁ m₂, updateContinuation .addBeginOnly root (ofElement commentedArguments) = .ok m₁ ∧
        updateContinuation .removeBeginOnly root m₁.forest = .ok m₂ ∧
        m₂.report.removed = m₁.report.inserted ∧
        ∀ i < (ofElement commentedArguments).size,
          m₂.forest.children i = (ofElement commentedArguments).children i ∧
            m₂.forest.tag i = (ofElement commentedArguments).tag i ∧
            m₂.forest.text i = (ofElement commentedArguments).text i ∧
            lineContent (m₂.forest.tail i).toList =
              lineContent ((ofElement commentedArguments).tail i).toList :=
  ⟨by decide +kernel, by decide +kernel,
    updateContinuation_addBegin_removeBegin (by decide +kernel) (by decide +kernel)⟩

end FortranLayout
