import FortranLayout.Proofs.Json.Document
import FortranLayout.Proofs.Markers.Update
import FortranLayout.Proofs.Normalization.Refusal

/-!
# Settings that change nothing

The spacing pass with every rule off still goes through all nodes four times, and the pass over the
markers with nothing to insert, remove or align still visits every child. Each of their steps leaves
the draft that it is given as it is, so the passes do as well. All that a run under such settings
may do is to compute the index of parents.

* `apply_keepAll`: the spacing pass with every rule off.
* `normalizeInPlace_quiet`: the whole run, and what is written for a document.
-/

namespace FortranLayout

open Forest

/-! ## Spacing with every rule off -/

namespace Draft

@[simp] theorem fitTail_keep (d : Draft) (i : NodeId) (g : Nat → List Char → List Char) :
    d.fitTail i .keep g = d := rfl

@[simp] theorem fitText_keep (d : Draft) (i : NodeId) (g : Nat → List Char → List Char) :
    d.fitText i .keep g = d := rfl

@[simp] theorem fitCode_keep (d : Draft) (i : NodeId) (g : Nat → List Char → List Char) :
    d.fitCode i .keep g = d := rfl

/-- An edit that gives back what it is given is none. -/
theorem editTail_eq_self {g : List Char → List Char} (hg : ∀ s, g s = s) (d : Draft) (i : NodeId) :
    d.editTail i g = d := by
  simp [editTail, hg]

theorem editText_eq_self {g : List Char → List Char} (hg : ∀ s, g s = s) (d : Draft) (i : NodeId) :
    d.editText i g = d := by
  simp [editText, hg]

end Draft

namespace SpacingRules

theorem declDelim_keepAll (s : List Char) : Gaps.declDelim keepAll s = s := rfl

theorem separatorGaps_keepAll (d : Draft) (i : NodeId) : keepAll.separatorGaps d i = d := by
  rw [separatorGaps]
  cases d.forest.previousSibling? i <;> rfl

theorem keywordGap_keepAll (d : Draft) (i : NodeId) : keepAll.keywordGap d i = d := by
  rw [keywordGap]
  cases AfterKeyword.forKind? (d.forest.kind i) <;> rfl

theorem kindGaps_keepAll (d : Draft) (i : NodeId) : keepAll.kindGaps d i = d := by
  unfold kindGaps
  split
  case h_4 | h_5 | h_9 | h_10 | h_11 | h_12 | h_13 | h_14 | h_15 | h_17 => exact ite_self d
  case h_1 | h_2 | h_3 => rfl
  case h_6 | h_7 => exact Draft.editTail_eq_self declDelim_keepAll d i
  case h_8 =>
    rw [Draft.editText_eq_self declDelim_keepAll]
    exact (if_congr Iff.rfl rfl (ite_self d)).trans (ite_self d)
  case h_16 => exact separatorGaps_keepAll d i
  case h_18 => exact keywordGap_keepAll d i

theorem firstRound_keepAll (d : Draft) (i : NodeId) : keepAll.firstRound d i = d := by
  have hpunctuation : keepAll.punctuation d i = d := rfl
  rw [firstRound, hpunctuation, kindGaps_keepAll]

/-- Nothing is written around the children of a node where both widths are kept. -/
theorem aroundChildren_keep (d : Draft) (i : NodeId) (kind : Kind) :
    aroundChildren d i kind .keep .keep = d := by
  refine List.foldl_fixed' (fun (previous, child) => ?_) _
  cases previous <;> simp

theorem actionGap_keepAll (d : Draft) (i : NodeId) (part : Kind) :
    keepAll.actionGap d i part = d := by
  rw [actionGap]
  cases d.forest.childOfKind? i part <;> rfl

theorem conditional_keepAll (d : Draft) (i : NodeId) : keepAll.conditional d i = d := by
  have hkeyword : keepAll.conditionalKeyword d i = d := by
    rw [conditionalKeyword]
    exact (if_congr Iff.rfl (ite_self d) rfl).trans (ite_self d)
  unfold conditional
  rw [hkeyword]
  dsimp only
  split
  case h_1 | h_2 => cases d.forest.childOfKind? i .condition <;> rfl
  case h_3 => exact actionGap_keepAll d i .condition
  case h_4 => exact actionGap_keepAll d i .mask
  case h_5 => exact actionGap_keepAll d i .forallTriplets
  case h_6 => rfl

theorem secondRound_keepAll (d : Draft) (i : NodeId) : keepAll.secondRound d i = d := by
  unfold secondRound
  split
  · exact aroundChildren_keep d i .op
  · exact aroundChildren_keep d i .affectation
  · exact aroundChildren_keep d i .affectation
  all_goals simp [conditional_keepAll]

theorem markerGap_keepAll (d : Draft) (parent : NodeId) (previous : Option NodeId)
    (marker : NodeId) :
    keepAll.markerGap d parent previous marker = d := by
  cases previous <;> simp [markerGap, keepAll]

theorem thirdRound_keepAll (d : Draft) (parent : NodeId) : keepAll.thirdRound d parent = d := by
  refine List.foldl_fixed' (fun (previous, child) => ?_) _
  simp [markerGap_keepAll]

theorem fourthRound_keepAll (order : List NodeId) (d : Draft) (entry : AdjacentKeyword) :
    keepAll.fourthRound order d entry = d := rfl

/-- With every rule off the spacing pass only computes the index of parents. -/
theorem apply_keepAll (f : Forest) : keepAll.apply f = { forest := f.indexed } := by
  simp only [apply, List.foldl_fixed' (firstRound_keepAll _),
    List.foldl_fixed' (secondRound_keepAll _), List.foldl_fixed' (thirdRound_keepAll _),
    List.foldl_fixed' (fourthRound_keepAll _ _)]

end SpacingRules

/-! ## Markers with nothing to do -/

/-- Options that ask for nothing. -/
def MarkerOptions.idle : MarkerOptions where
  align := false
  removeAll := false
  addBegin := false
  removeBegin := false

theorem MarkerOptions.apply_idle (i : NodeId) (f : Forest) : idle.apply i f = { forest := f } :=
  MarkerDraft.revise_eq_self rfl (fun _ => rfl) i { forest := f }

/-! ## Runs -/

/-- Settings under which no pass has anything to do: those that are switched on have every rule off.
-/
structure Settings.Quiet (s : Settings) : Prop where
  keepsComments : s.passes.removeComments = false
  keepsIfStatements : s.passes.convertIfStatements = false
  keepsContains : s.passes.removeEmptyContains = false
  keepsLines : s.passes.removeEmptyLines = false
  keepsIndentation : s.passes.indent = false
  keepsCase : s.passes.case = .keep
  keepsSpacing : s.passes.spacing = true → s.spacing = .keepAll
  keepsMarkers : s.passes.continuation = true → s.continuation = .idle

@[simp] theorem Forest.nodes_indexed (f : Forest) : f.indexed.nodes = f.nodes := by
  rw [indexed]
  split <;> rfl

/-- The tree of a store depends on its nodes only. -/
theorem Forest.toElement_congr {f g : Forest} (h : g.nodes = f.nodes) :
    g.toElement = f.toElement := by
  have hnode : ∀ i, g.node i = f.node i := fun i => by rw [node, node, h]
  have hsize : g.size = f.size := congrArg Array.size h
  rw [toElement, toElement, element, element, shape, shape, hsize,
    shapeWithin_congr fun i => congrArg Node.children (hnode i)]
  exact elementOf_congr fun i _ => hnode i

namespace Settings.Quiet

variable {s : Settings}

theorem spacing_eq (hs : s.Quiet) (f : Forest) :
    runPass s.passes.spacing s.spacing.apply f =
      { forest := if s.passes.spacing then f.indexed else f } := by
  cases hon : s.passes.spacing with
  | false => rfl
  | true => rw [runPass, if_pos rfl, hs.keepsSpacing hon, SpacingRules.apply_keepAll, if_pos rfl]

theorem markers_eq (hs : s.Quiet) (f : Forest) :
    (if s.passes.continuation then s.continuation.apply root f else { forest := f }) =
      { forest := f } := by
  cases hon : s.passes.continuation with
  | false => rfl
  | true => rw [if_pos rfl, hs.keepsMarkers hon, MarkerOptions.apply_idle]

/-- A run under quiet settings at most computes the index of parents. -/
theorem run_eq (hs : s.Quiet) (f : Forest) :
    s.run f = (if s.passes.spacing then f.indexed else f, {}) := by
  have hoff (pass : Forest → Draft) (g : Forest) : runPass false pass g = { forest := g } := rfl
  simp only [run, hs.keepsComments, hs.keepsIfStatements, hs.keepsContains, hs.keepsLines,
    hs.keepsIndentation, hs.keepsCase, hoff, hs.spacing_eq, hs.markers_eq, convertCase]

theorem nodes_run (hs : s.Quiet) (f : Forest) : (s.run f).1.nodes = f.nodes := by
  rw [hs.run_eq]
  cases s.passes.spacing <;> simp

end Settings.Quiet

/-- Under valid settings that ask for nothing the nodes of a tree stay as they are, nothing is
counted, and what is written for a document are the texts and tails of its tree. -/
theorem normalizeInPlace_quiet {s : Settings} (hvalid : s.validate = .ok ())
    (hs : s.Quiet) (e : Element) :
    (∃ f, (normalizeInPlace s).run (ofElement e) = .ok {} f ∧ f.nodes = (ofElement e).nodes ∧
        f.toElement = e) ∧
      ∀ text out, Element.ofDocument? text = some e →
        (formatOnto Writer.buffer s .fortran text).run out = .ok {} (out ++ e.source) := by
  have hnodes : (s.run (ofElement e)).1.nodes = (ofElement e).nodes := hs.nodes_run _
  have htree : (s.run (ofElement e)).1.toElement = e := by
    rw [toElement_congr hnodes, toElement_ofElement]
  have hreport : (s.run (ofElement e)).2 = {} := by rw [hs.run_eq]
  refine ⟨⟨(s.run (ofElement e)).1, ?_, hnodes, htree⟩, fun text out htext => ?_⟩
  · rw [normalizeInPlace_of_validate hvalid, hreport]
  · have hsource : (s.run (ofElement e)).1.emit .fortran = e.source := congrArg Element.source htree
    rw [formatOnto_buffer, formatDocument_of_validate htext hvalid, hreport, hsource]

/-- A block with a tab, blanks at the end of a line and words in lower case that default settings
would change. -/
def untidyBlock : Element where
  tag := "file"
  children :=
    [{ tag := "if-block"
       children :=
        [{ tag := "if-then-stmt", text := "if(a)then", tail := "\n\t    " },
         { tag := "a-stmt", text := "x  =  1", tail := "   \n" },
         { tag := "end-if-stmt", text := "endif" }] }]

/-- Spacing and markers are switched on, with every rule off. -/
def quietSettings : Settings where
  passes := { indent := false }
  spacing := .keepAll
  continuation := .idle

theorem normalizeInPlace_quiet_untidyBlock :
    quietSettings.validate = .ok () ∧ quietSettings.Quiet ∧
      (∃ f, (normalizeInPlace quietSettings).run (ofElement untidyBlock) = .ok {} f ∧
        f.nodes = (ofElement untidyBlock).nodes ∧ f.toElement = untidyBlock) ∧
      (formatOnto Writer.buffer quietSettings .fortran (Json.document untidyBlock)).run "" =
        .ok {} "if(a)then\n\t    x  =  1   \nendif" := by
  have hvalid : quietSettings.validate = .ok () := rfl
  have hquiet : quietSettings.Quiet := ⟨rfl, rfl, rfl, rfl, rfl, rfl, fun _ => rfl, fun _ => rfl⟩
  obtain ⟨hrun, hformat⟩ := normalizeInPlace_quiet hvalid hquiet untidyBlock
  have hdocument : Element.ofDocument? (Json.document untidyBlock) = some untidyBlock :=
    Element.ofDocument?_document (by decide)
  exact ⟨hvalid, hquiet, hrun, hformat _ "" hdocument⟩

end FortranLayout
