import FortranLayout.Kind

/-!
# Runs of comments

The comments and directives directly after a marker make up its run. Removing a marker looks for a
directive there and takes the comments out; the directives stay. What is said here holds of lists of
anything that has a kind: of elements, of nodes and of shapes.
-/

namespace FortranLayout

variable {α β : Type} (kind : α → Kind)

/-- Whether a directive is in the run of comments and directives at the beginning of a list. -/
def leadsToDirective (cs : List α) : Bool :=
  (cs.takeWhile fun c => (kind c).isCommentLike).any (kind · == .directive)

/-- The list without the comments in the run at its beginning. -/
def pruneComments (dropping : Bool) (cs : List α) : List α :=
  if dropping then
    (cs.takeWhile fun c => (kind c).isCommentLike).filter (kind · == .directive) ++
      cs.dropWhile fun c => (kind c).isCommentLike
  else cs

theorem leadsToDirective_map (kind : β → Kind) (g : α → β) (cs : List α) :
    leadsToDirective kind (cs.map g) = leadsToDirective (fun c => kind (g c)) cs := by
  rw [leadsToDirective, leadsToDirective, List.takeWhile_map, List.any_map]
  rfl

theorem pruneComments_map (kind : β → Kind) (g : α → β) (dropping : Bool) (cs : List α) :
    pruneComments kind dropping (cs.map g) =
      (pruneComments (fun c => kind (g c)) dropping cs).map g := by
  cases dropping with
  | false => rfl
  | true =>
    rw [pruneComments, pruneComments, if_pos rfl, if_pos rfl, List.takeWhile_map,
      List.dropWhile_map, List.filter_map, List.map_append]
    rfl

variable {kind}

theorem pruneComments_sublist (dropping : Bool) (cs : List α) :
    List.Sublist (pruneComments kind dropping cs) cs := by
  cases dropping with
  | false => exact List.Sublist.refl cs
  | true =>
    have h := (List.filter_sublist (p := (kind · == .directive))
      (l := cs.takeWhile fun c => (kind c).isCommentLike)).append
        (List.Sublist.refl (cs.dropWhile fun c => (kind c).isCommentLike))
    rwa [List.takeWhile_append_dropWhile] at h

theorem isCommentLike_eq (k : Kind) : k.isCommentLike = (k == .comment || k == .directive) := by
  cases k <;> rfl

theorem leadsToDirective_cons (c : α) (cs : List α) :
    leadsToDirective kind (c :: cs) =
      (kind c == .directive || (kind c == .comment && leadsToDirective kind cs)) := by
  simp only [leadsToDirective, List.takeWhile_cons, isCommentLike_eq]
  cases hc : kind c == .comment <;> cases hd : kind c == .directive <;> simp [hd]

theorem pruneComments_cons_comment {c : α} (h : kind c = .comment) (cs : List α) :
    pruneComments kind true (c :: cs) = pruneComments kind true cs := by
  simp [pruneComments, isCommentLike_eq, h]

theorem pruneComments_cons {c : α} (h : kind c ≠ .comment) (dropping : Bool) (cs : List α) :
    pruneComments kind dropping (c :: cs) =
      c :: pruneComments kind (dropping && kind c == .directive) cs := by
  cases dropping with
  | false => rfl
  | true =>
    by_cases hd : kind c = .directive
    · simp [pruneComments, isCommentLike_eq, hd]
    · simp [pruneComments, isCommentLike_eq, hd, h]

/-- An item that is neither a comment nor a directive ends the run. -/
theorem pruneComments_cons_of_not_commentLike {c : α} (h : (kind c).isCommentLike = false)
    (dropping : Bool) (cs : List α) : pruneComments kind dropping (c :: cs) = c :: cs := by
  rw [isCommentLike_eq, Bool.or_eq_false_iff, beq_eq_false_iff_ne] at h
  rw [pruneComments_cons h.1, h.2, Bool.and_false]
  rfl

theorem pruneComments_pruneComments {dropping all : Bool} (h : dropping = true → all = true)
    (cs : List α) :
    pruneComments kind dropping (pruneComments kind all cs) = pruneComments kind all cs := by
  cases dropping with
  | false => rfl
  | true =>
    rw [h rfl]
    induction cs with
    | nil => rfl
    | cons c cs ih =>
      by_cases hc : kind c = .comment
      · rw [pruneComments_cons_comment hc, ih]
      · rw [pruneComments_cons hc, pruneComments_cons hc, Bool.true_and]
        cases hd : kind c == .directive with
        | true => rw [ih]
        | false => rfl

/-- Without a directive the whole run goes. -/
theorem pruneComments_of_not_leadsToDirective {cs : List α} (h : leadsToDirective kind cs = false) :
    pruneComments kind true cs = cs.dropWhile fun c => (kind c).isCommentLike := by
  have hnone :
      (cs.takeWhile fun c => (kind c).isCommentLike).filter (kind · == .directive) = [] := by
    rw [List.filter_eq_nil_iff]
    exact List.any_eq_false.mp h
  rw [pruneComments, if_pos rfl, hnone, List.nil_append]

theorem leadsToDirective_pruneComments (cs : List α) :
    leadsToDirective kind (pruneComments kind true cs) = leadsToDirective kind cs := by
  induction cs with
  | nil => rfl
  | cons c cs ih =>
    by_cases hc : kind c = .comment
    · rw [pruneComments_cons_comment hc, ih, leadsToDirective_cons, hc]
      rfl
    · rw [pruneComments_cons hc, leadsToDirective_cons, leadsToDirective_cons,
        beq_eq_false_iff_ne.mpr hc, Bool.false_and, Bool.false_and]

end FortranLayout
