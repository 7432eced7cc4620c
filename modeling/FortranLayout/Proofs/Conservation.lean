import FortranLayout.Normalization
import FortranLayout.Proofs.Markers.Update
import FortranLayout.Proofs.SpacingLayout

/-!
# Cosmetic settings conserve the code

Blank lines, spacing, indentation and alignment relay the store; the insertion of markers reshapes
it. Each keeps the characters other than blanks, tabs and newlines outside the texts of markers, in
order, and so does the whole run under settings that switch on nothing else (`code_normalize`).
-/

namespace FortranLayout

open Forest

/-- Settings under which nothing is removed or rewritten. -/
structure Settings.Cosmetic (s : Settings) : Prop where
  keepsComments : s.passes.removeComments = false
  keepsIfStatements : s.passes.convertIfStatements = false
  keepsContains : s.passes.removeEmptyContains = false
  keepsMarkers : s.continuation.removeAll = false
  keepsBeginMarkers : s.continuation.removeBegin = false
  keepsCase : s.passes.case = .keep

theorem relaid_runPass {inText inTail : Char → Bool} {pass : Forest → Draft}
    (h : ∀ f, Relaid inText inTail f (pass f).forest) (on : Bool) (f : Forest) :
    Relaid inText inTail f (runPass on pass f).forest := by
  rw [runPass]
  split
  · exact h f
  · exact .refl _ _ _

theorem isInk_of_isCode {c : Char} (h : isCode c = true) : Text.isInk c = true := by
  simp only [isCode, Bool.and_eq_true, bne_iff_ne] at h
  simp [Text.isInk, Text.isBlank, h.1.1, h.2]

namespace Settings

variable {s : Settings}

/-- The passes before the markers relay the store. -/
theorem relaid_before_markers (s : Settings) (f : Forest) :
    Relaid isCode isCode f
      (runPass s.passes.indent (indentTree s.indent)
        (runPass s.passes.spacing s.spacing.apply
          (runPass s.passes.removeEmptyLines removeEmptyLines f).forest).forest).forest := by
  refine (relaid_runPass relaid_removeEmptyLines _ f).trans
    ((relaid_runPass (fun g => ?_) _ _).trans (relaid_runPass (fun g => ?_) _ _))
  · exact (s.spacing.relaid_apply g).mono (fun _ => not_isBlank_of_isCode) fun _ => isInk_of_isCode
  · exact (relaid_indentTree s.indent g).mono (fun _ _ => rfl) fun _ => isInk_of_isCode

/-- A run under cosmetic settings is that of four passes. -/
theorem run_of_cosmetic (hc : s.Cosmetic) (f : Forest) :
    (s.run f).1 =
      let g := (runPass s.passes.indent (indentTree s.indent)
        (runPass s.passes.spacing s.spacing.apply
          (runPass s.passes.removeEmptyLines removeEmptyLines f).forest).forest).forest
      if s.passes.continuation then (s.continuation.apply root g).forest else g := by
  simp only [run, hc.keepsComments, hc.keepsIfStatements, hc.keepsContains,
    hc.keepsCase, convertCase, runPass, Bool.false_eq_true, if_false]
  split <;> rfl

theorem code_run (hc : s.Cosmetic) (e : Element) :
    (s.run (ofElement e)).1.code .outsideMarkers = (ofElement e).code .outsideMarkers := by
  have hrelaid := s.relaid_before_markers (ofElement e)
  rw [run_of_cosmetic hc]
  dsimp only
  generalize (runPass s.passes.indent (indentTree s.indent)
    (runPass s.passes.spacing s.spacing.apply
      (runPass s.passes.removeEmptyLines removeEmptyLines (ofElement e)).forest).forest).forest = g
    at hrelaid ⊢
  have hcode : g.code .outsideMarkers = (ofElement e).code .outsideMarkers :=
    Relaid.code_eq (v := .outsideMarkers) hrelaid
  split
  · have hkeeps : ∀ ends, s.continuation.removes ends = false := fun ends => by
      rw [MarkerOptions.removes, hc.keepsMarkers, hc.keepsBeginMarkers]
      rfl
    have hholds := hrelaid.holds (holds_ofElement e)
    rw [MarkerOptions.code_apply_of_keeps rfl rfl hkeeps hholds (e.id_shapeFrom 0), hcode]
  · exact hcode

end Settings

/-- Normalizing under valid cosmetic settings gives a tree with the same code. -/
theorem code_normalize {s : Settings} (hs : s.validate = .ok ()) (hc : s.Cosmetic) (e : Element) :
    ∃ f report, normalize s (ofElement e) = .ok (f, report) ∧
      f.code .outsideMarkers = (ofElement e).code .outsideMarkers := by
  refine ⟨(s.run (ofElement e)).1, (s.run (ofElement e)).2, ?_, Settings.code_run hc e⟩
  rw [normalize, hs]
  rfl

/-- A call over two lines, with code in the tail of its marker and a blank line after it. -/
def continuedCall : Element where
  tag := "file"
  children :=
    [{ tag := "call-stmt"
       text := "CALL  FOO(A,"
       tail := "\n\n"
       children :=
        [{ tag := "cnt", text := "&", tail := "\n  B)" }, { tag := "C", text := "! done" }] }]

theorem code_normalize_continuedCall :
    (({ passes := { removeEmptyLines := true } } : Settings).validate = .ok ()) ∧
      ∃ f report,
        normalize { passes := { removeEmptyLines := true } } (ofElement continuedCall) =
            .ok (f, report) ∧
          f.code .outsideMarkers = (ofElement continuedCall).code .outsideMarkers :=
  ⟨by decide, code_normalize (by decide) ⟨rfl, rfl, rfl, rfl, rfl, rfl⟩ continuedCall⟩

end FortranLayout
