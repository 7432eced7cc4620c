import FortranLayout.Conditional
import FortranLayout.Proofs.Code
import Mathlib.Algebra.GroupWithZero.Nat
import Mathlib.Data.List.Forall2

/-!
# From one-line IF statements to IF constructs, on elements

`Converts e e'` says that `e'` is `e` with every convertible statement turned into a construct. How
far the new lines are indented is left open. A conversion puts in THEN and END IF, and leaves out
what its parts have no place for: the text and the tail of the action's wrapper, its children after
the first, the tail of the statement, and the markers.
-/

namespace FortranLayout

open Forest (thenTail)
open Text (lineBreak)

namespace Element

/-! ## Everything below an element -/

mutual

/-- An element and everything below it, in document order. -/
def subelements : Element → List Element
  | ⟨tag, text, tail, cs⟩ => ⟨tag, text, tail, cs⟩ :: allSubelements cs

/-- Several elements and everything below them, in document order. -/
def allSubelements : List Element → List Element
  | [] => []
  | e :: es => subelements e ++ allSubelements es

end

@[simp] theorem allSubelements_eq (es : List Element) :
    allSubelements es = es.flatMap subelements := by
  induction es with
  | nil => rfl
  | cons e es ih => simp [allSubelements, ih]

theorem subelements_eq (e : Element) : e.subelements = e :: e.children.flatMap subelements := by
  obtain ⟨tag, text, tail, cs⟩ := e
  simp [subelements]

theorem size_lt_of_mem {e c : Element} (h : c ∈ e.children) : c.size < e.size := by
  obtain ⟨tag, text, tail, cs⟩ := e
  have hle : c.size ≤ sizes cs := by
    have hc : c ∈ cs := h
    clear h
    induction cs with
    | nil => cases hc
    | cons d ds ih =>
      rw [sizes]
      rcases List.mem_cons.mp hc with rfl | hc
      · omega
      · have := ih hc
        omega
  rw [size]
  omega

end Element

/-! ## The parts of a one-line IF -/

/-- The parts of a one-line IF: what goes into the construct, and what is left. -/
structure IfParts (α : Type) where
  condition : α
  /-- The wrapper of the action. -/
  action : α
  /-- The action itself. -/
  statement : α
  /-- The children that stay where they are. -/
  others : List α
  markers : List α

section Parts

variable {α β : Type} {kind : α → Kind} {children : α → List α} {x : α} {p : IfParts α}

/-- The parts of a one-line IF, if it has all of them. -/
def ifParts? (kind : α → Kind) (children : α → List α) (x : α) : Option (IfParts α) := do
  let condition ← (children x).find? (kind · == .condition)
  let action ← (children x).find? (kind · == .actionStmt)
  let statement ← (children action).head?
  let rest := ((children x).eraseP (kind · == .condition)).eraseP (kind · == .actionStmt)
  return {
    condition, action, statement
    others := rest.filter (kind · != .continuation)
    markers := rest.filter (kind · == .continuation) }

/-- The parts, each replaced. -/
def IfParts.map (g : α → β) (p : IfParts α) : IfParts β where
  condition := g p.condition
  action := g p.action
  statement := g p.statement
  others := p.others.map g
  markers := p.markers.map g

/-- Parts are found in the same places in what has the same kinds below it. -/
theorem ifParts?_map {kind' : β → Kind} {children' : β → List β} {g : α → β}
    (hkind : ∀ y, kind' (g y) = kind y) (hchildren : ∀ y, children' (g y) = (children y).map g)
    (x : α) : ifParts? kind' children' (g x) = (ifParts? kind children x).map (·.map g) := by
  have hcomp (k : Kind) : (kind' · == k) ∘ g = (kind · == k) := by
    funext y
    exact congrArg (· == k) (hkind y)
  have hcompNot (k : Kind) : (kind' · != k) ∘ g = (kind · != k) := by
    funext y
    exact congrArg (· != k) (hkind y)
  rw [ifParts?, ifParts?, hchildren, List.find?_map, List.find?_map, List.eraseP_map, hcomp, hcomp,
    List.eraseP_map, hcomp]
  dsimp only
  rw [List.filter_map, List.filter_map, hcomp, hcompNot]
  cases (children x).find? (kind · == .condition) with
  | none => rfl
  | some condition =>
    cases (children x).find? (kind · == .actionStmt) with
    | none => rfl
    | some action =>
      simp only [Option.map_some, Option.bind_eq_bind, Option.bind_some, hchildren, List.head?_map]
      cases (children action).head? <;> rfl

theorem perm_eraseP_of_find? {q : α → Bool} {xs : List α} (h : xs.find? q = some x) :
    xs.Perm (x :: xs.eraseP q) := by
  induction xs with
  | nil => cases h
  | cons y xs ih =>
    by_cases hy : q y = true
    · rw [List.find?_cons_of_pos hy, Option.some.injEq] at h
      rw [List.eraseP_cons_of_pos hy, h]
    · rw [List.find?_cons_of_neg hy] at h
      rw [List.eraseP_cons_of_neg hy]
      exact ((ih h).cons y).trans (List.Perm.swap x y _)

theorem find?_eraseP {q q' : α → Bool} (hq : ∀ y, q y = true → q' y = false) (xs : List α) :
    (xs.eraseP q).find? q' = xs.find? q' := by
  induction xs with
  | nil => rfl
  | cons y xs ih =>
    by_cases hy : q y = true
    · rw [List.eraseP_cons_of_pos hy, List.find?_cons_of_neg (by simp [hq y hy])]
    · rw [List.eraseP_cons_of_neg hy, List.find?_cons, List.find?_cons, ih]

/-- Where the parts are found. The rest of the children is what remains without the condition and
the action. -/
structure IfParts.FoundIn (kind : α → Kind) (children : α → List α) (p : IfParts α) (x : α)
    (rest : List α) : Prop where
  condition : (children x).find? (kind · == .condition) = some p.condition
  action : ((children x).eraseP (kind · == .condition)).find? (kind · == .actionStmt) =
    some p.action
  statement : (children p.action).head? = some p.statement
  rest_eq : ((children x).eraseP (kind · == .condition)).eraseP (kind · == .actionStmt) = rest
  others : p.others = rest.filter (kind · != .continuation)
  markers : p.markers = rest.filter (kind · == .continuation)

theorem exists_foundIn (h : ifParts? kind children x = some p) :
    ∃ rest, p.FoundIn kind children x rest := by
  simp only [ifParts?, Option.bind_eq_bind, Option.bind_eq_some_iff, Option.pure_def,
    Option.some.injEq] at h
  obtain ⟨condition, hcondition, action, haction, statement, hstatement, rfl⟩ := h
  refine ⟨_, hcondition, ?_, hstatement, rfl, rfl, rfl⟩
  rw [find?_eraseP (fun y hy => ?_), haction]
  rw [beq_iff_eq] at hy
  rw [hy]
  rfl

namespace IfParts.FoundIn

variable {rest : List α}

theorem action_kind (h : p.FoundIn kind children x rest) : kind p.action = .actionStmt := by
  simpa using List.find?_some h.action

theorem action_children (h : p.FoundIn kind children x rest) :
    children p.action = p.statement :: (children p.action).tail := by
  obtain ⟨ys, hys⟩ := List.head?_eq_some_iff.mp h.statement
  simp [hys]

theorem rest_perm (h : p.FoundIn kind children x rest) : rest.Perm (p.others ++ p.markers) := by
  rw [h.others, h.markers]
  refine (List.filter_append_perm (kind · != .continuation) rest).symm.trans ?_
  refine List.Perm.append_left _ ?_
  simp [bne]

theorem children_perm (h : p.FoundIn kind children x rest) :
    (children x).Perm (p.condition :: p.action :: (p.others ++ p.markers)) := by
  refine (perm_eraseP_of_find? h.condition).trans (List.Perm.cons _ ?_)
  refine (perm_eraseP_of_find? h.action).trans (List.Perm.cons _ ?_)
  rw [h.rest_eq]
  exact h.rest_perm

end IfParts.FoundIn

end Parts

/-- What is left of the parts when the construct is made. -/
def IfParts.dropped (p : IfParts Element) : List Element := p.action.children.tail ++ p.markers

namespace Element

/-- The parts of a statement that is converted: a one-line IF without a CYCLE. -/
def conversion? (e : Element) : Option (IfParts Element) :=
  if e.kind == .ifStmt && !e.subelements.tail.any (·.kind == .cycleStmt) then
    ifParts? kind children e
  else none

/-- The number of statements in an element that are converted. -/
def conversions (e : Element) : Nat := e.subelements.countP (·.conversion?.isSome)

theorem conversion?_of_kind {e : Element} (h : e.kind ≠ .ifStmt) : e.conversion? = none := by
  have hkind : (e.kind == .ifStmt) = false := beq_eq_false_iff_ne.mpr h
  rw [conversion?, hkind]
  rfl

theorem exists_foundIn_of_conversion? {e : Element} {p : IfParts Element}
    (h : e.conversion? = some p) :
    e.kind = .ifStmt ∧ ∃ rest, p.FoundIn kind children e rest := by
  rw [conversion?] at h
  split at h
  · rename_i hguard
    rw [Bool.and_eq_true, beq_iff_eq] at hguard
    exact ⟨hguard.1, exists_foundIn h⟩
  · cases h

/-! ## What does not depend on the own tail -/

theorem conversion?_with_tail (e : Element) (t : String) :
    ({ e with tail := t } : Element).conversion? = e.conversion? := by
  obtain ⟨tag, text, tail, cs⟩ := e
  simp [conversion?, subelements, ifParts?, kind]

theorem size_with_tail (e : Element) (t : String) :
    ({ e with tail := t } : Element).size = e.size := by
  cases e
  simp only [size]

theorem conversions_eq (e : Element) :
    e.conversions = (if e.conversion?.isSome then 1 else 0) + (e.children.map conversions).sum := by
  rw [conversions, subelements_eq, List.countP_cons, List.countP_flatMap, Nat.add_comm]
  rfl

theorem conversions_with_tail (e : Element) (t : String) :
    ({ e with tail := t } : Element).conversions = e.conversions := by
  rw [conversions_eq, conversions_eq, conversion?_with_tail]

/-! ## Conversion -/

/-- The construct made of a condition with THEN after it and a statement. -/
def ifConstruct (text tail : String) (level : Nat) (others : List Element)
    (condition statement : Element) : Element where
  tag := "if-construct"
  tail := tail
  children :=
    others ++
      [{ tag := "if-block"
         children :=
          [{ tag := "if-then-stmt", text := text, tail := lineBreak (level + 2),
             children := [condition] },
           statement, { tag := "end-if-stmt", text := "END IF" }] }]

/-- The second element is the first one with every convertible statement converted. -/
inductive Converts : Element → Element → Prop
  | keep {e : Element} {cs : List Element} (unconverted : e.conversion? = none)
    (below : List.Forall₂ Converts e.children cs) : Converts e { e with children := cs }
  | convert {e c s : Element} {p : IfParts Element} {os : List Element} (level : Nat)
    (parts : e.conversion? = some p)
    (condition : Converts { p.condition with tail := thenTail p.condition.tail } c)
    (statement : Converts { p.statement with tail := lineBreak level } s)
    (others : List.Forall₂ Converts p.others os) :
    Converts e (ifConstruct e.text e.tail level os c s)

/-- Induction over a conversion, with the hypothesis for what is below a statement that stays and
for the parts of one that is converted. -/
theorem Converts.parts_induct {motive : Element → Element → Prop}
    (keep : ∀ e cs, e.conversion? = none → List.Forall₂ Converts e.children cs →
      (∀ c ∈ e.children, ∀ c', Converts c c' → motive c c') → motive e { e with children := cs })
    (convert : ∀ e c s p os level, e.conversion? = some p → List.Forall₂ Converts p.others os →
      motive { p.condition with tail := thenTail p.condition.tail } c →
      motive { p.statement with tail := lineBreak level } s →
      (∀ o ∈ p.others, ∀ o', Converts o o' → motive o o') →
      motive e (ifConstruct e.text e.tail level os c s))
    {e e' : Element} (h : Converts e e') : motive e e' := by
  -- Strong induction on the size: a part of the action is not a child of the statement.
  induction hn : e.size using Nat.strongRecOn generalizing e e' with
  | ind n ih =>
    cases h with
    | keep hnone hbelow =>
      exact keep e _ hnone hbelow fun c hc c' hconv => ih c.size (hn ▸ size_lt_of_mem hc) hconv rfl
    | @convert _ c s p os level hparts hc hs ho =>
      obtain ⟨_, rest, hp⟩ := exists_foundIn_of_conversion? hparts
      have hmem : ∀ d, d ∈ p.condition :: p.action :: (p.others ++ p.markers) → d.size < n := by
        intro d hd
        exact hn ▸ size_lt_of_mem (hp.children_perm.mem_iff.mpr hd)
      have hlt : p.statement.size < n :=
        Nat.lt_trans (size_lt_of_mem (by rw [hp.action_children]; simp)) (hmem p.action (by simp))
      refine convert e c s p os level hparts ho ?_ ?_ fun o hom o' hconv => ?_
      · exact ih _ (by rw [size_with_tail]; exact hmem p.condition (by simp)) hc rfl
      · exact ih _ (by rw [size_with_tail]; exact hlt) hs rfl
      · exact ih o.size (hmem o (by simp [hom])) hconv rfl

end Element

end FortranLayout
