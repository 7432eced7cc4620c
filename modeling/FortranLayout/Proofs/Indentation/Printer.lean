import FortranLayout.Proofs.Indentation.Bodies

/-!
# Indentation is pretty-printing

Indenting the tree of a program, with whatever indentation it came, spells the layout of the program
(`source_indentTree`).

The level of a line is known where the line before ends. So a stretch of the tree is read together
with the level at which its first line has been started and the level at which it starts the line
after it (`Program.Laid`).
-/

namespace FortranLayout

namespace Program

open Text (lineBreak)
open Element (sources keepsLine indentAll)

variable {P : Kind → Prop} {p : IndentParams} {next : Option Element} {e : Element}
  {inside : Option String}

/-! ## Lines laid out -/

/-- The elements spell `lines`, when the first line has been started at `level`, and start the next
line at `after`. -/
structure Laid (level : Nat) (es : List Element) (lines : List (Nat × String))
    (after : Nat) : Prop where
  spells : indentation level ++ sources es = spell lines ++ indentation after
  breaks : ∃ init last, es = init ++ [last] ∧ last.tail = lineBreak after

theorem sources_singleton (e : Element) : sources [e] = e.text ++ sources e.children ++ e.tail := by
  cases e
  simp [sources, Element.source]

variable {es es' : List Element} {lines lines' : List (Nat × String)} {level after : Nat}

theorem laid_line (line : Line P) (level after : Nat) :
    Laid level [{ line.element with tail := lineBreak after }] [(level, line.text)] after := by
  refine ⟨?_, [], _, rfl, rfl⟩
  rw [sources_singleton, spell_singleton, lineBreak_eq]
  simp [Line.element, sources, String.append_assoc]

/-- A construct or unit whose last statement is written at the level `m`. -/
theorem laid_container {m : Nat} {text : String}
    (h : indentation level ++ sources es = spell lines ++ (indentation m ++ text)) (tag : String)
    (after : Nat) : Laid level [⟨tag, "", lineBreak after, es⟩] (lines ++ [(m, text)]) after := by
  refine ⟨?_, [], _, rfl, rfl⟩
  rw [sources_singleton, spell_append, spell_singleton, lineBreak_eq]
  calc indentation level ++ ("" ++ sources es ++ ("\n" ++ indentation after))
      = indentation level ++ sources es ++ ("\n" ++ indentation after) := by
        simp [String.append_assoc]
    _ = spell lines ++ (indentation m ++ text ++ "\n") ++ indentation after := by
        rw [h]
        simp [String.append_assoc]

namespace Laid

theorem append {m : Nat} (h : Laid level es lines m) (h' : Laid m es' lines' after) :
    Laid level (es ++ es') (lines ++ lines') after := by
  refine ⟨?_, ?_⟩
  · rw [Element.sources_append, ← String.append_assoc, h.spells, String.append_assoc, h'.spells,
      spell_append, String.append_assoc]
  · obtain ⟨init, last, rfl, htail⟩ := h'.breaks
    exact ⟨es ++ init, last, (List.append_assoc _ _ _).symm, htail⟩

/-- The level of the next line can be set at the end. -/
theorem relevel (h : Laid level es lines after) (hnext : keepsLine p next = false) (m : Nat) :
    Laid level (es.modifyLast (Element.setLevel p m next)) lines m := by
  obtain ⟨init, last, rfl, htail⟩ := h.breaks
  have hspells := h.spells
  rw [List.modifyLast_concat, setLevel_lineBreak hnext htail]
  refine ⟨?_, init, _, rfl, rfl⟩
  have hline : indentation level ++ (sources init ++ (last.text ++ sources last.children ++ "\n")) =
      spell lines := by
    rw [Element.sources_append, sources_singleton, htail, lineBreak_eq] at hspells
    apply (String.append_left_inj (indentation after)).mp
    rw [← hspells]
    simp only [String.append_assoc]
  rw [Element.sources_append, sources_singleton, lineBreak_eq, ← hline]
  simp only [String.append_assoc]

/-- A closing statement at the level `m`. -/
theorem close (h : Laid level es lines after) (hnext : keepsLine p next = false) (m : Nat)
    (closer : Line P) :
    indentation level ++ sources (es.modifyLast (Element.setLevel p m next) ++ [closer.ending]) =
      spell lines ++ (indentation m ++ closer.text) := by
  rw [Element.sources_append, ← String.append_assoc, (h.relevel hnext m).spells, sources_singleton]
  simp [Line.ending, sources, String.append_assoc]

end Laid

/-- The item is laid out at every level. -/
def LaidItem (p : IndentParams) (item : Item) : Prop :=
  ∀ level, Laid level [settled p level item.element] (item.lines p level) level

/-- Items after what has been laid out. -/
theorem Laid.items {items : List Item} (h : Laid level es lines after)
    (hitems : ∀ item ∈ items, LaidItem p item) :
    Laid level (es ++ (items.map Item.element).map (settled p after))
      (lines ++ items.flatMap (Item.lines p after)) after := by
  induction items generalizing es lines with
  | nil => simpa using h
  | cons item items ih =>
    have h' := ih (h.append (hitems item List.mem_cons_self after))
      fun i hi => hitems i (List.mem_cons_of_mem _ hi)
    simpa using h'

/-- What is below a construct or unit that has one body. -/
theorem sources_body {Q : Kind → Prop} (hinside : Known inside) (head : Line P)
    (hhead : Leaf head.element.kind) (hlevel : head.element.levelAfter p inside level = after)
    {items : List Item} (hitems : ∀ item ∈ items, LaidItem p item) (closer : Line Q)
    (hleaf : Leaf closer.ending.kind) (hcloser : closer.ending.isCloser inside = true) :
    indentation level ++ sources (indentAll p level inside false level
        (head.element :: items.map Item.element ++ [closer.ending])) =
      spell ((level, head.text) :: items.flatMap (Item.lines p after)) ++
        (indentation level ++ closer.text) := by
  have hopen := (laid_line head level after).items hitems
  rw [indentAll_concat rfl hleaf, leadTo_closer hleaf hcloser,
    indentAll_headed hinside head hhead hlevel (standing_items items)]
  exact hopen.close (keepsLine_of_not_isCommentLike hleaf.isCommentLike_eq) level closer

/-! ## Blocks one after the other -/

/-- The level of the statements in the blocks of a construct at `level`. -/
def blockLevel (p : IndentParams) (inSelect : Bool) (level : Nat) : Nat :=
  if inSelect then level + 2 * p.branch else level

/-- The level of the lines that head the blocks of a construct at `level`. -/
def headLevel (p : IndentParams) (inSelect : Bool) (level : Nat) : Nat :=
  if inSelect then level + p.branch else level

/-- A block that spells `lines` and is not closed. -/
structure Ready (p : IndentParams) (inSelect : Bool) (level start : Nat) (b : Element)
    (lines : List (Nat × String)) : Prop where
  isBlock : ∃ family, b.kind = .block family
  text_eq : b.text = ""
  tail_eq : b.tail = ""
  isOpen : ∀ e ∈ b.indentBelow p (blockLevel p inSelect level) none, e.kind ≠ .endSelectCaseStmt
  laid : ∃ after, Laid start (b.indentBelow p (blockLevel p inSelect level) none) lines after

/-- The statement that ends the last block of a construct. -/
def Ends (inSelect : Bool) (kind : Kind) : Prop :=
  if inSelect then kind = .endSelectCaseStmt else kind.closesBranch = true

theorem Ends.leaf {inSelect : Bool} {kind : Kind} (h : Ends inSelect kind) : Leaf kind := by
  cases inSelect with
  | true =>
    obtain rfl : kind = .endSelectCaseStmt := h
    exact ⟨rfl, rfl⟩
  | false =>
    have hk : kind.closesBranch = true := h
    constructor <;> cases kind <;> first | rfl | cases hk

theorem modifyLast_id {α : Type} (xs : List α) : xs.modifyLast id = xs := by
  rcases List.eq_nil_or_concat' xs with rfl | ⟨init, last, rfl⟩
  · rfl
  · rw [List.modifyLast_concat, id]

variable {inSelect : Bool} {start : Nat} {b : Element}

namespace Ready

theorem neutral (hb : Ready p inSelect level start b lines) : Neutral b.kind := by
  obtain ⟨family, hk⟩ := hb.isBlock
  exact hk ▸ neutral_block family

theorem innerTag_eq (hb : Ready p inSelect level start b lines) : b.innerTag = none := by
  obtain ⟨family, hk⟩ := hb.isBlock
  rw [Element.innerTag, hk]

theorem isContainer_eq (hb : Ready p inSelect level start b lines) : b.kind.isContainer = true := by
  obtain ⟨family, hk⟩ := hb.isBlock
  rw [hk]
  rfl

theorem levelAfter_eq (hb : Ready p inSelect level start b lines) (hinside : Known inside)
    (es : List Element) : Element.levelAfter p inside level { b with children := es } = level :=
  Neutral.levelAfter_eq (e := { b with children := es }) hb.neutral hinside level

theorem indentBelow_eq (hb : Ready p inSelect level start b lines) (m : Nat) (es : List Element) :
    Element.indentBelow p m none { b with children := es } = indentAll p m none false m es := by
  obtain ⟨family, hk⟩ := hb.isBlock
  rw [Element.indentBelow, show Kind.ofTag b.tag = _ from hk]
  rfl

/-- A block that others follow. -/
theorem visit_eq (hb : Ready p inSelect level start b lines) (next : Option Element) :
    b.visit p level inSelect level next =
      { b with children := b.indentBelow p (blockLevel p inSelect level) none } := by
  obtain ⟨_, hlaid⟩ := hb.laid
  obtain ⟨init, last, hes, _⟩ := hlaid.breaks
  have hlast := hb.isOpen last (hes ▸ List.mem_append_right _ List.mem_cons_self)
  rw [Element.visit, setLevel_empty hb.tail_eq]
  cases inSelect with
  | true =>
    rw [if_pos rfl, Element.closeArm]
    rw [blockLevel, if_pos rfl] at hes ⊢
    rw [hes, List.getLast?_concat]
    exact if_neg fun h => hlast (beq_iff_eq.mp h)
  | false =>
    rw [if_neg Bool.false_ne_true, if_pos hb.isContainer_eq, hb.innerTag_eq]
    rfl

/-- A block leads to the next one, whatever that ends with. -/
theorem leadTo_eq (hb : Ready p inSelect level start b lines) (hinside : Known inside)
    (hstarts : inSelect = true ∨ b.startsInterBranch = true) (extra : List Element) {b' : Element}
    (hb' : b' = { b with children := b.children ++ extra }) (e : Element) :
    e.leadTo p level inside inSelect (some b') =
      { e with
        children := e.children.modifyLast
          (Element.setLevel p (headLevel p inSelect level) (some b')) } := by
  have hneutral : Neutral b'.kind := hb' ▸ hb.neutral
  have hcontainer : b'.kind.isContainer = true := hb' ▸ hb.isContainer_eq
  rw [Element.leadTo, hneutral.isCloser_eq hinside, if_neg Bool.false_ne_true, Element.leadToBranch]
  cases inSelect with
  | true => rfl
  | false =>
    have hfirst : b'.startsInterBranch = true := by
      have hb₀ := hstarts.resolve_left Bool.false_ne_true
      rw [hb', Element.startsInterBranch]
      rw [Element.startsInterBranch] at hb₀
      cases hcs : b.children with
      | nil =>
        rw [hcs] at hb₀
        cases hb₀
      | cons c cs =>
        rw [hcs] at hb₀
        exact hb₀
    rw [if_neg Bool.false_ne_true, hcontainer, hfirst, Bool.and_self, if_pos rfl]
    rfl

/-- The last block, which ends with the closing statement of the construct. -/
theorem visit_closed (hb : Ready p inSelect level start b lines) {c : Element} (htail : c.tail = "")
    (hc : Ends inSelect c.kind) :
    Element.visit p level inSelect level none { b with children := b.children ++ [c] } =
      { b with
        children := (b.indentBelow p (blockLevel p inSelect level) none).modifyLast
          (Element.setLevel p level (some c)) ++ [c] } := by
  have hbelow : ∀ m, b.indentBelow p m none = indentAll p m none false m b.children := by
    intro m
    have h := hb.indentBelow_eq m b.children
    cases b
    exact h
  have hleaf : Leaf c.kind := hc.leaf
  have hset :=
    setLevel_empty (e := { b with children := b.children ++ [c] }) (p := p) hb.tail_eq level
    none
  rw [Element.visit, hset, hbelow]
  cases inSelect with
  | true =>
    have hk : c.kind = .endSelectCaseStmt := hc
    -- The END SELECT is no closing statement for its own block.
    have hlead : Element.leadTo p (level + 2 * p.branch) none false (some c) = id := by
      funext e
      rw [Element.leadTo, Element.isCloser, Element.leadToBranch, hk]
      rfl
    rw [if_pos rfl, hb.indentBelow_eq, indentAll_concat htail hleaf, hlead, modifyLast_id,
      Element.closeArm, List.getLast?_concat, List.dropLast_concat]
    dsimp only
    rw [hk, beq_self_eq_true, if_pos rfl]
    rfl
  | false =>
    have hk : c.kind.closesBranch = true := hc
    have hcloser : c.isCloser none = true := by
      rw [Element.isCloser]
      split
      · rfl
      · rw [hk]
        rfl
    have hcontainer :
        ({ b with children := b.children ++ [c] } : Element).kind.isContainer = true :=
      hb.isContainer_eq
    have hinner : Element.innerTag { b with children := b.children ++ [c] } = none := hb.innerTag_eq
    rw [if_neg Bool.false_ne_true, if_pos hcontainer, hinner, hb.indentBelow_eq,
      indentAll_concat htail hleaf, leadTo_closer hleaf hcloser]
    rfl

end Ready

theorem sources_block (hb : Ready p inSelect level start b lines) (es rest : List Element) :
    sources ({ b with children := es } :: rest) = sources es ++ sources rest := by
  rw [sources, Element.source, hb.text_eq, hb.tail_eq]
  simp

/-- The blocks of a construct. The induction is on the blocks after the first, which may start at
any level. -/
theorem sources_blocks {α : Type} {block : α → Element} {linesOf : α → List (Nat × String)}
    {later : List α}
    (hlater : ∀ a ∈ later,
      Ready p inSelect level (headLevel p inSelect level) (block a) (linesOf a))
    (hstarts : ∀ a ∈ later, inSelect = true ∨ (block a).startsInterBranch = true)
    (hinside : Known inside) (closer : Line P) (hcloser : Ends inSelect closer.ending.kind)
    (hb : Ready p inSelect level start b lines) :
    indentation start ++ sources (indentAll p level inside inSelect level
        (closeLast closer.ending (b :: later.map block))) =
      spell (lines ++ later.flatMap linesOf) ++ (indentation level ++ closer.text) := by
  induction later generalizing b lines start with
  | nil =>
    obtain ⟨_, hlaid⟩ := hb.laid
    have hkeeps : keepsLine p (some closer.ending) = false :=
      keepsLine_of_not_isCommentLike hcloser.leaf.isCommentLike_eq
    rw [List.map_nil, closeLast_singleton, Element.indentAll_cons, List.head?_nil,
      hb.levelAfter_eq hinside, hb.visit_closed rfl hcloser, Element.leadTo, sources_block hb,
      indentAll, sources, String.append_empty, List.flatMap_nil, List.append_nil]
    exact hlaid.close hkeeps level closer
  | cons a later ih =>
    have ha := hlater a List.mem_cons_self
    have hrest := ih (fun a' h => hlater a' (List.mem_cons_of_mem _ h))
      (fun a' h => hstarts a' (List.mem_cons_of_mem _ h)) ha
    obtain ⟨_, hlaid⟩ := hb.laid
    obtain ⟨extra, hnext⟩ := head?_closeLast closer.ending (block a) (later.map block)
    have hlevel : b.levelAfter p inside level = level := hb.neutral.levelAfter_eq hinside level
    have hkeeps :
        keepsLine p (some { block a with children := (block a).children ++ extra }) = false :=
      keepsLine_of_not_isCommentLike ha.neutral.isCommentLike_eq
    rw [List.map_cons, closeLast_cons_cons, Element.indentAll_cons, hlevel, hnext, hb.visit_eq,
      ha.leadTo_eq hinside (hstarts a List.mem_cons_self) extra rfl, sources_block hb]
    have hspells := (hlaid.relevel hkeeps (headLevel p inSelect level)).spells
    rw [← String.append_assoc, hspells, String.append_assoc, hrest, List.flatMap_cons,
      ← List.append_assoc, spell_append (lines ++ linesOf a), spell_append lines,
      spell_append (linesOf a)]
    simp only [String.append_assoc]

theorem ready_branch (b : Branch P Item) (hitems : ∀ item ∈ b.body, LaidItem p item)
    (hhead : Leaf b.head.element.kind) (hne : b.head.element.kind ≠ .endSelectCaseStmt)
    (hlevel : b.head.element.levelAfter p none (blockLevel p inSelect level) = after)
    (start : Nat) :
    Ready p inSelect level start (b.element (b.body.map Item.element))
      ((start, b.head.text) :: b.body.flatMap (Item.lines p after)) := by
  have hstanding := standing_items b.body
  obtain ⟨family, hblock⟩ := b.block.kind_tag
  have hbelow :
      (b.element (b.body.map Item.element)).indentBelow p (blockLevel p inSelect level) none =
      { b.head.element with tail := lineBreak after } ::
        (b.body.map Item.element).map (settled p after) := by
    rw [← indentAll_headed known_none b.head hhead hlevel hstanding, Branch.element,
      Element.indentBelow, hblock]
    rfl
  refine ⟨⟨family, hblock⟩, rfl, rfl, ?_, after, ?_⟩
  · rw [hbelow]
    intro e he
    rcases List.mem_cons.mp he with rfl | he
    · exact hne
    · obtain ⟨e', he', rfl⟩ := List.mem_map.mp he
      exact (hstanding e' he').ne_endSelectCaseStmt
  · rw [hbelow]
    exact (laid_line b.head start after).items hitems

/-! ## All items -/

theorem settled_construct {tag : String} {c : Construct}
    (htag : Kind.ofTag tag = .construct c) (n : Nat) (es : List Element) :
    settled p level ⟨tag, "", lineBreak n, es⟩ =
      ⟨tag, "", lineBreak level, indentAll p level (some tag) (c == .selectCase) level es⟩ := by
  have hselect : (Kind.construct c == .construct .selectCase) = (c == .selectCase) := by
    cases c <;> rfl
  rw [settled, Element.innerTag, Element.kind, htag, Element.indentBelow, htag, hselect]
  rfl

theorem settled_programUnit {tag : String} (htag : Kind.ofTag tag = .programUnit) (n : Nat)
    (es : List Element) :
    settled p level ⟨tag, "", lineBreak n, es⟩ =
      ⟨tag, "", lineBreak level, indentAll p level none false level es⟩ := by
  rw [settled, Element.innerTag, Element.kind, htag, Element.indentBelow, htag]
  rfl

theorem laidItem_plain (line : Line fun kind => kind.isStatement ∧ ¬ kind.isDelimiter) :
    LaidItem p (.plain line) := by
  intro level
  have hcontainer : ¬ line.element.kind.isContainer = true := by
    have hs : line.element.kind.isStatement = true := line.kind_tag.1
    generalize line.element.kind = kind at hs
    cases kind <;> first | exact Bool.false_ne_true | cases hs
  rw [Item.element, Item.lines, settled, if_neg hcontainer]
  exact laid_line line level level

theorem laidItem_enclosed {c : Construct} (enclosing : c.isEnclosing = true)
    (node : Tag (· = .construct c)) (head : Line (· = .constructStmt c)) {body : List Item}
    (hbody : ∀ item ∈ body, LaidItem p item) (closer : Line (· = .endConstructStmt c)) :
    LaidItem p (.enclosed c enclosing node head body closer) := by
  intro level
  have hother : c ≠ .other := by
    rintro rfl
    cases enclosing
  have hselect : (c == .selectCase) = false := by
    cases c <;> first | rfl | cases enclosing
  have hhead : head.element.kind = .constructStmt c := head.kind_tag
  have hcloser : closer.ending.kind = .endConstructStmt c := closer.kind_tag
  rw [Item.element, Item.lines, settled_construct node.kind_tag, hselect]
  refine laid_container
    (sources_body (known_some node.kind_tag hother) head ?_ ?_ hbody closer ?_ ?_) _ _
  · rw [hhead]
    exact ⟨rfl, rfl⟩
  · simp [Element.levelAfter, opensBody_eq hother node.kind_tag, hhead, Kind.opens, hother]
  · rw [hcloser]
    exact ⟨rfl, rfl⟩
  · simp [Element.isCloser, closesBody_eq hother node.kind_tag, hcloser, Kind.closes, hother]

theorem laidItem_unit {u : ProgramUnit} (node : Tag (· = .programUnit))
    (head : Line (· = .unitStmt u)) {body : List Item} (hbody : ∀ item ∈ body, LaidItem p item)
    (closer : Line (· = .endUnitStmt u)) :
    LaidItem p (.unit u node head body closer) := by
  intro level
  have hhead : head.element.kind = .unitStmt u := head.kind_tag
  have hcloser : closer.ending.kind = .endUnitStmt u := closer.kind_tag
  rw [Item.element, Item.lines, settled_programUnit node.kind_tag]
  refine laid_container (sources_body known_none head ?_ ?_ hbody closer ?_ ?_) _ _
  · rw [hhead]
    exact ⟨rfl, rfl⟩
  · rw [Element.levelAfter, hhead]
  · rw [hcloser]
    exact ⟨rfl, rfl⟩
  · rw [Element.isCloser, hcloser]

/-- A branch is headed by a statement that opens it. -/
theorem ready_of_opensBranch (b : Branch P Item) (hopens : b.head.element.kind.opensBranch = true)
    (hitems : ∀ item ∈ b.body, LaidItem p item) (level : Nat) :
    Ready p false level level (b.element (b.body.map Item.element))
      ((level, b.head.text) :: b.body.flatMap (Item.lines p (level + p.branch))) := by
  have hleaf : Leaf b.head.element.kind ∧ b.head.element.kind ≠ .endSelectCaseStmt := by
    generalize b.head.element.kind = kind at hopens
    cases kind <;> first | cases hopens; done | exact ⟨⟨rfl, rfl⟩, Kind.noConfusion⟩
  refine ready_branch b hitems hleaf.1 hleaf.2 ?_ level
  rw [Element.levelAfter]
  split
  · rename_i hk
    rw [hk] at hopens
    cases hopens
  · rw [hopens]
    rfl

theorem laidItem_branching
    (node : Tag fun kind => kind = .construct .ifThen ∨ kind = .construct .whereMask)
    (first : Branch (fun kind => kind = .ifThenStmt ∨ kind = .whereConstructStmt) Item)
    (hfirst : ∀ item ∈ first.body, LaidItem p item)
    {later : List (Branch (fun kind => kind.isInterBranch) Item)}
    (hlater : ∀ b ∈ later, ∀ item ∈ b.body, LaidItem p item)
    (closer : Line fun kind => kind.closesBranch) :
    LaidItem p (.branching node first later closer) := by
  intro level
  have hopens : first.head.element.kind.opensBranch = true := by
    rcases first.head.kind_tag with hk | hk
    · exact congrArg Kind.opensBranch hk
    · exact congrArg Kind.opensBranch hk
  have hinter : ∀ b ∈ later, b.head.element.kind.opensBranch = true := by
    intro b _
    have hk : b.head.element.kind.isInterBranch = true := b.head.kind_tag
    rw [Kind.opensBranch.eq_def]
    split
    · rfl
    · rfl
    · exact hk
  have hblocks := fun {inside} (hinside : Known inside) => sources_blocks
    (fun b hb => ready_of_opensBranch b (hinter b hb) (hlater b hb) level)
    (fun b _ => Or.inr b.head.kind_tag) hinside closer closer.kind_tag
    (ready_of_opensBranch first hopens hfirst level)
  rw [Item.element, Item.lines]
  rcases node.kind_tag with hk | hk
  · rw [settled_construct hk]
    exact laid_container (hblocks (known_some hk Construct.noConfusion)) _ _
  · rw [settled_construct hk]
    exact laid_container (hblocks (known_some hk Construct.noConfusion)) _ _

theorem laidItem_selection (node : Tag (· = .construct .selectCase))
    (block : Tag fun kind => ∃ family, kind = .block family) (head : Line (· = .selectCaseStmt))
    (first : Branch (· = .caseStmt) Item) (hfirst : ∀ item ∈ first.body, LaidItem p item)
    {later : List (Branch (· = .caseStmt) Item)}
    (hlater : ∀ b ∈ later, ∀ item ∈ b.body, LaidItem p item)
    (closer : Line (· = .endSelectCaseStmt)) :
    LaidItem p (.selection node block head first later closer) := by
  intro level
  have hcase : ∀ b : Branch (· = .caseStmt) Item, (∀ item ∈ b.body, LaidItem p item) →
      Ready p true level (level + p.branch) (b.element (b.body.map Item.element))
        ((level + p.branch, b.head.text) ::
          b.body.flatMap (Item.lines p (level + 2 * p.branch))) := by
    intro b hitems
    have hk : b.head.element.kind = .caseStmt := b.head.kind_tag
    refine ready_branch b hitems ?_ ?_ ?_ _
    · rw [hk]
      exact ⟨rfl, rfl⟩
    · rw [hk]
      exact Kind.noConfusion
    · rw [Element.levelAfter, hk]
      rfl
  -- The SELECT CASE itself is in a block of its own, without a body.
  have hopening :
      Ready p true level level ⟨block.tag, "", "", [head.element]⟩ [(level, head.text)] := by
    have hk : head.element.kind = .selectCaseStmt := head.kind_tag
    refine ready_branch ⟨block, head, []⟩ (List.forall_mem_nil _) ?_ ?_ rfl level
    · rw [hk]
      exact ⟨rfl, rfl⟩
    · rw [hk]
      exact Kind.noConfusion
  have hall : ∀ b ∈ first :: later, ∀ item ∈ b.body, LaidItem p item := by
    intro b hb
    rcases List.mem_cons.mp hb with rfl | hb
    · exact hfirst
    · exact hlater b hb
  have hblocks := sources_blocks (fun b hb => hcase b (hall b hb)) (fun _ _ => Or.inl rfl)
    (known_some node.kind_tag Construct.noConfusion) closer closer.kind_tag hopening
  rw [List.map_cons, closeLast_cons_cons, List.flatMap_cons, ← List.append_assoc] at hblocks
  rw [Item.element, Item.lines, settled_construct node.kind_tag]
  exact laid_container hblocks _ _

theorem Item.laid (p : IndentParams) : ∀ item : Item, LaidItem p item
  | .plain line => laidItem_plain line
  | .enclosed _ enclosing node head _ closer =>
    laidItem_enclosed enclosing node head (fun item _ => laid p item) closer
  | .branching node first _ closer =>
    laidItem_branching node first (fun item _ => laid p item) (fun _ _ item _ => laid p item) closer
  | .selection node block head first _ closer =>
    laidItem_selection node block head first (fun item _ => laid p item)
      (fun _ _ item _ => laid p item) closer
  | .unit _ node head _ closer => laidItem_unit node head (fun item _ => laid p item) closer
termination_by item => sizeOf item
decreasing_by all_goals grind [→ List.sizeOf_lt_of_mem, → Branch.sizeOf_lt]

end Program

open Program

/-- Indenting the tree of a program spells its layout. -/
theorem source_indentTree (p : IndentParams) (items : List Program.Item) (tail : String) :
    (indentTree p
      (Forest.ofElement ⟨"file", "", tail, items.map Program.Item.element⟩)).forest.source =
      Program.print p items ++ tail := by
  have hbelow : Element.indentBelow p 0 none ⟨"file", "", tail, items.map Item.element⟩ =
      (items.map Item.element).map (settled p 0) := by
    rw [← indentAll_of_standing known_none (standing_items items) 0 0, Element.indentBelow]
    rfl
  have hspells : Element.sources ((items.map Item.element).map (settled p 0)) = print p items := by
    cases items with
    | nil => rfl
    | cons item rest =>
      have hlaid := (item.laid p 0).items fun i (_ : i ∈ rest) => i.laid p
      have hzero : indentation 0 = "" := rfl
      have h := hlaid.spells
      rw [hzero, String.empty_append, String.append_empty] at h
      exact h
  have hsource : ∀ f : Forest, f.source = f.toElement.source := fun _ => rfl
  rw [hsource, toElement_indentTree, hbelow, Element.source, hspells, String.empty_append]

-- Every blank that the lines come with is replaced: the arms are one branch in, their bodies two.
example :
    print { programUnit := 1 }
      [.unit .subroutine ⟨"program-unit", rfl⟩ ⟨⟨"subroutine-stmt", rfl⟩, "SUBROUTINE S (I)", 9⟩
        [.selection ⟨"selectcase-construct", rfl⟩ ⟨"selectcase-block", .selectCase, rfl⟩
          ⟨⟨"select-case-stmt", rfl⟩, "SELECT CASE (I)", 7⟩
          ⟨⟨"selectcase-block", .selectCase, rfl⟩, ⟨⟨"case-stmt", rfl⟩, "CASE (1)", 0⟩,
            [.plain ⟨⟨"a-stmt", by decide⟩, "X = 1", 3⟩]⟩
          [⟨⟨"selectcase-block", .selectCase, rfl⟩, ⟨⟨"case-stmt", rfl⟩, "CASE DEFAULT", 5⟩, []⟩]
          ⟨⟨"end-select-case-stmt", rfl⟩, "END SELECT", 2⟩]
        ⟨⟨"end-subroutine-stmt", rfl⟩, "END SUBROUTINE", 4⟩] =
      "SUBROUTINE S (I)\n SELECT CASE (I)\n   CASE (1)\n     X = 1\n" ++
        "   CASE DEFAULT\n END SELECT\nEND SUBROUTINE\n" := by
  cbv

end FortranLayout
