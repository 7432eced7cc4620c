import FortranLayout.InPlace
import FortranLayout.Proofs.Forest.OfElement
import FortranLayout.Proofs.Spacing.Texts

/-!
# Refusals leave nothing half done

The passes for spacing and for markers check their options when other passes have edited the tree
already. Since all settings are checked before the first pass, these later checks cannot fail: a
refusal is the one of `Settings.validate`, and it leaves the tree as it was. An output is written to
only after that, so a document without a tree, or with settings that are refused, leaves the output
as it was.

* `normalizeInPlace_of_validate`: with valid settings every pass that is switched on is carried out.
* `formatOnto_buffer`: onto an output that takes everything, `formatOnto` writes the text of
  `formatDocument`.
* `normalizeInPlace_refused_iff`: exactly when something is refused, and what is left then.
-/

namespace FortranLayout

/-- The options that the later passes check are among those checked first. -/
theorem Settings.validate_eq_ok_iff {s : Settings} :
    s.validate = .ok () ↔ s.continuation.validate = .ok () ∧ s.spacing.validate = .ok () := by
  rw [validate]
  cases s.continuation.validate with
  | error fault => simp [bind, Except.bind]
  | ok _ => simp [bind, Except.bind]

/-! ## Steps on a tree -/

namespace TreeEdit

theorem run_check (result : Except Fault Unit) (f : Forest) :
    (check result).run f =
      match result with
      | .ok _ => .ok () f
      | .error fault => .error fault f := rfl

theorem run_pass (run : Forest → Draft) (f : Forest) :
    (pass run).run f = .ok (run f).edits (run f).forest := rfl

theorem run_runIf_pass (on : Bool) (run : Forest → Draft) (f : Forest) :
    (runIf on 0 (pass run)).run f = .ok (runPass on run f).edits (runPass on run f).forest := by
  cases on <;> rfl

/-- With valid rules the spacing pass is not refused. -/
theorem run_runIf_spacing {r : SpacingRules} (hr : r.validate = .ok ()) (on : Bool) (f : Forest) :
    (runIf on 0 (spacing r)).run f =
      .ok (runPass on r.apply f).edits (runPass on r.apply f).forest := by
  cases on with
  | false => rfl
  | true =>
    simp only [runIf, if_true, EStateM.run, spacing,
      SpacingRules.updateSpacing_of_validate hr, runPass]

/-- With valid options the pass over the markers is not refused. -/
theorem run_runIf_continuation {o : MarkerOptions} (ho : o.validate = .ok ())
    (on : Bool) (f : Forest) :
    (runIf on {} (continuation o)).run f =
      .ok (if on then o.apply Forest.root f else { forest := f }).report
        (if on then o.apply Forest.root f else { forest := f }).forest := by
  cases on with
  | false => rfl
  | true =>
    have happly : updateContinuation o Forest.root f = .ok (o.apply Forest.root f) := by
      rw [updateContinuation, ho]
      rfl
    simp only [runIf, if_true, EStateM.run, continuation, happly]

end TreeEdit

open TreeEdit

/-- With valid settings nothing is refused on the way, and every pass that is switched on is carried
out. -/
theorem normalizeInPlace_of_validate {s : Settings} (hs : s.validate = .ok ()) (f : Forest) :
    (normalizeInPlace s).run f = .ok (s.run f).2 (s.run f).1 := by
  obtain ⟨hmarkers, hspacing⟩ := Settings.validate_eq_ok_iff.mp hs
  simp only [normalizeInPlace, EStateM.run_bind, run_check, hs, run_runIf_pass,
    run_runIf_spacing hspacing, run_runIf_continuation hmarkers, run_pass,
    EStateM.run_pure, Settings.run]

/-- Settings that are refused leave the tree as it was. -/
theorem normalizeInPlace_of_error {s : Settings} {fault : Fault} (hs : s.validate = .error fault)
    (f : Forest) : (normalizeInPlace s).run f = .error fault f := by
  simp only [normalizeInPlace, EStateM.run_bind, run_check, hs]

/-! ## Outputs -/

section

variable {δ : Type} {w : Writer δ} {out out' : δ}

theorem run_writePiece (w : Writer δ) (piece : String) (out : δ) :
    (writePiece w piece).run out =
      if (w piece out).1 then .ok () (w piece out).2 else .error .unwritable (w piece out).2 := by
  simp only [EStateM.run, writePiece]
  obtain ⟨taken, next⟩ := w piece out
  cases taken <;> rfl

/-- When writing fails, it is because of the output. -/
theorem unwritable_of_forM_writePiece {pieces : List String} {fault : OutputFault}
    (h : (forM pieces (writePiece w)).run out = .error fault out') : fault = .unwritable := by
  induction pieces generalizing out with
  | nil => cases h
  | cons piece pieces ih =>
    rw [List.forM_cons, EStateM.run_bind, run_writePiece] at h
    cases hpiece : (w piece out).1 with
    | true =>
      simp only [hpiece, if_true] at h
      exact ih h
    | false =>
      simp only [hpiece, Bool.false_eq_true, if_false] at h
      cases h
      rfl

theorem formatOnto_of_noTree {text : String} (h : Element.ofDocument? text = none) (s : Settings)
    (emit : Emit) : (formatOnto w s emit text).run out = .error (.document .noTree) out := by
  rw [formatOnto, h]
  rfl

theorem formatOnto_of_error {s : Settings} {fault : Fault} {text : String} {e : Element}
    (h : Element.ofDocument? text = some e) (hs : s.validate = .error fault) (emit : Emit) :
    (formatOnto w s emit text).run out = .error (.document (.refused fault)) out := by
  simp only [formatOnto, h, normalizeInPlace_of_error hs]
  rfl

theorem formatOnto_of_validate {s : Settings} {text : String} {e : Element}
    (h : Element.ofDocument? text = some e) (hs : s.validate = .ok ()) (emit : Emit) :
    (formatOnto w s emit text).run out =
      match (forM ((s.run (Forest.ofElement e)).1.emittedPieces emit) (writePiece w)).run out with
      | .ok _ out => .ok (s.run (Forest.ofElement e)).2 out
      | .error fault out => .error fault out := by
  simp only [formatOnto, h, normalizeInPlace_of_validate hs, EStateM.run_bind, EStateM.run_pure]
  cases (forM ((s.run (Forest.ofElement e)).1.emittedPieces emit) (writePiece w)).run out <;> rfl

theorem formatDocument_of_validate {s : Settings} {text : String} {e : Element}
    (h : Element.ofDocument? text = some e) (hs : s.validate = .ok ()) (emit : Emit) :
    formatDocument s emit text =
      .ok ((s.run (Forest.ofElement e)).1.emit emit, (s.run (Forest.ofElement e)).2) := by
  simp only [formatDocument, h, normalize, hs]
  rfl

theorem formatDocument_of_error {s : Settings} {fault : Fault} {text : String} {e : Element}
    (h : Element.ofDocument? text = some e) (hs : s.validate = .error fault) (emit : Emit) :
    formatDocument s emit text = .error (.refused fault) := by
  simp only [formatDocument, h, normalize, hs]
  rfl

/-- An output in memory holds the pieces that were written to it. -/
theorem forM_writePiece_buffer (pieces : List String) (out : String) :
    (forM pieces (writePiece Writer.buffer)).run out = .ok () (out ++ String.join pieces) := by
  induction pieces generalizing out with
  | nil => simp
  | cons piece pieces ih =>
    have hpiece : (writePiece Writer.buffer piece).run out = .ok () (out ++ piece) := rfl
    simp only [List.forM_cons, EStateM.run_bind, hpiece, ih, String.join_cons, String.append_assoc]

/-- The pieces in which a tree is written make up the text of the tree. -/
theorem join_emittedPieces (f : Forest) (emit : Emit) :
    String.join (f.emittedPieces emit) = f.emit emit := by
  cases emit with
  | fortran => exact f.join_piecesOf _
  | json =>
    rw [Forest.emittedPieces, Forest.emit, Json.document, String.join_cons, String.join_cons,
      String.join_nil, String.append_empty, String.ofList_append]

end

/-- Onto an output in memory a document is formatted as it is for itself. -/
theorem formatOnto_buffer (s : Settings) (emit : Emit) (text out : String) :
    (formatOnto Writer.buffer s emit text).run out =
      match formatDocument s emit text with
      | .ok (written, report) => .ok report (out ++ written)
      | .error fault => .error (.document fault) out := by
  cases htext : Element.ofDocument? text with
  | none => rw [formatOnto_of_noTree htext, formatDocument, htext]
  | some e =>
    cases hs : s.validate with
    | error fault => rw [formatOnto_of_error htext hs, formatDocument_of_error htext hs]
    | ok _ =>
      rw [formatOnto_of_validate htext hs, formatDocument_of_validate htext hs,
        forM_writePiece_buffer, join_emittedPieces]

/-- Settings are refused exactly when they are refused before the first pass, for the same reason,
and the tree is left as it was; otherwise all passes are carried out. A document that has no tree,
or whose settings are refused, leaves every output as it was. -/
theorem normalizeInPlace_refused_iff (s : Settings) (f : Forest) :
    (∀ fault g, (normalizeInPlace s).run f = .error fault g ↔ s.validate = .error fault ∧ g = f) ∧
      (∀ report g,
        (normalizeInPlace s).run f = .ok report g ↔ s.validate = .ok () ∧ (g, report) = s.run f) ∧
        ∀ (δ : Type) (w : Writer δ) (emit : Emit) (text : String) (out out' : δ)
          (fault : DocumentFault),
          (formatOnto w s emit text).run out = .error (.document fault) out' ↔
            formatDocument s emit text = .error fault ∧ out' = out := by
  refine ⟨fun fault g => ?_, fun report g => ?_, fun δ w emit text out out' fault => ?_⟩
  · cases hs : s.validate with
    | error first => simp [normalizeInPlace_of_error hs, eq_comm]
    | ok _ => simp [normalizeInPlace_of_validate hs]
  · cases hs : s.validate with
    | error first => simp [normalizeInPlace_of_error hs]
    | ok _ => simp [normalizeInPlace_of_validate hs, Prod.ext_iff, eq_comm, and_comm]
  · cases htext : Element.ofDocument? text with
    | none => simp [formatOnto_of_noTree htext, formatDocument, htext, eq_comm]
    | some e =>
      cases hs : s.validate with
      | error first =>
        simp [formatOnto_of_error htext hs, formatDocument_of_error htext hs, eq_comm]
      | ok _ =>
        rw [formatOnto_of_validate htext hs, formatDocument_of_validate htext hs]
        -- from here on only the output can fail
        cases hwrite :
          (forM ((s.run (Forest.ofElement e)).1.emittedPieces emit) (writePiece w)).run out with
        | ok _ _ => simp
        | error cause _ => simp [unwritable_of_forM_writePiece hwrite]

end FortranLayout
