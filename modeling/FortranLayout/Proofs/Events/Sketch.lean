import FortranLayout.Forest.OfEvents
import FortranLayout.Proofs.Forest.OfElement
import Mathlib.Data.List.ModifyLast

/-!
# Trees drawn from events

A tree under construction, as a value: the element so far, and how many levels down its last
children the open element is. The elements on this way are its *spine*. Each event changes the
element at the end of the spine (`Sketch.step`):

* what is fed is appended to the source, as long as no element on the spine has a tail
  (`Sketch.source_step`);
* the events of an element draw it below the open one (`Sketch.run_eventsOf`), and those of a root
  draw the root (`Sketch.run_events`).
-/

namespace FortranLayout

namespace Event

/-- The text that an event feeds. -/
def fed : Event → String
  | .start _ | .finish => ""
  | .text s | .leaf _ s => s

/-- The tags of the elements that an event starts. -/
def started : Event → List String
  | .start tag | .leaf tag _ => [tag]
  | .text _ | .finish => []

end Event

namespace Element

mutual

/-- What a parser reports of an element and the text after it. -/
def eventsOf : Element → List Event
  | ⟨tag, text, tail, children⟩ =>
    .start tag :: .text text :: (eventsBelow children ++ [.finish, .text tail])

/-- What a parser reports of several elements. -/
def eventsBelow : List Element → List Event
  | [] => []
  | e :: es => eventsOf e ++ eventsBelow es

end

/-- What a parser reports of the root, which is open from the beginning to the end. -/
def events (e : Element) : List Event := .text e.text :: eventsBelow e.children

/-! ## The spine -/

/-- Adds a child after the others. -/
def addChild (c e : Element) : Element := { e with children := e.children ++ [c] }

/-- Changes the last child. -/
def onLastChild (k : Element → Element) (e : Element) : Element :=
  { e with children := e.children.modifyLast k }

/-- Adds text at the end: to the tail of the last child, or to the text if there is none. -/
def addText (t : String) (e : Element) : Element :=
  if e.children.isEmpty then { e with text := e.text ++ t }
  else e.onLastChild fun c => { c with tail := c.tail ++ t }

/-- Changes the element `n` levels down the last children. -/
def onSpine : Nat → (Element → Element) → Element → Element
  | 0, k => k
  | n + 1, k => onSpine n (onLastChild k)

variable {n : Nat} {c e : Element} {k l : Element → Element} {t : String}

@[simp] theorem onLastChild_concat (tag text tail : String) (xs : List Element) :
    onLastChild k ⟨tag, text, tail, xs ++ [c]⟩ = ⟨tag, text, tail, xs ++ [k c]⟩ := by
  simp [onLastChild, List.modifyLast_concat]

theorem onLastChild_onLastChild (k l : Element → Element) (e : Element) :
    onLastChild k (onLastChild l e) = onLastChild (k ∘ l) e := by
  obtain ⟨tag, text, tail, cs⟩ := e
  rcases List.eq_nil_or_concat cs with rfl | ⟨xs, c, rfl⟩
  · rfl
  · simp

theorem onLastChild_addChild (k : Element → Element) (c e : Element) :
    onLastChild k (addChild c e) = addChild (k c) e :=
  onLastChild_concat e.tag e.text e.tail e.children

theorem addText_addChild (t : String) (c e : Element) :
    addText t (addChild c e) = addChild { c with tail := c.tail ++ t } e := by
  rw [addText, if_neg (by simp [addChild]), onLastChild_addChild]

theorem onSpine_onSpine (n : Nat) (k l : Element → Element) (e : Element) :
    onSpine n k (onSpine n l e) = onSpine n (k ∘ l) e := by
  induction n generalizing k l with
  | zero => rfl
  | succ n ih =>
    rw [onSpine, onSpine, ih, onSpine]
    congr 1
    exact funext (onLastChild_onLastChild k l)

theorem onSpine_eq_self (hk : ∀ e, k e = e) : onSpine n k e = e := by
  induction n generalizing k e with
  | zero => exact hk e
  | succ n ih =>
    refine ih fun e => ?_
    obtain ⟨tag, text, tail, cs⟩ := e
    rcases List.eq_nil_or_concat cs with rfl | ⟨xs, c, rfl⟩
    · rfl
    · rw [List.concat_eq_append, onLastChild_concat, hk]

/-- The child just added is one level further down. -/
theorem onSpine_succ_addChild (n : Nat) (k : Element → Element) (c e : Element) :
    onSpine (n + 1) k (onSpine n (addChild c) e) = onSpine n (addChild (k c)) e := by
  rw [onSpine, onSpine_onSpine]
  congr 1
  exact funext (onLastChild_addChild k c)

theorem onSpine_succ (n : Nat) (k : Element → Element) (e : Element) :
    onSpine (n + 1) k e = onLastChild (onSpine n k) e := by
  induction n generalizing k with
  | zero => rfl
  | succ n ih =>
    rw [onSpine, ih (onLastChild k)]
    rfl

/-! ## Open spines -/

/-- There are `n` levels of last children, and no element down to there has a tail. -/
inductive OpenTo : Nat → Element → Prop where
  | here (tag text : String) (cs : List Element) : OpenTo 0 ⟨tag, text, "", cs⟩
  | down (tag text : String) (xs : List Element) {n : Nat} {c : Element} (h : OpenTo n c) :
    OpenTo (n + 1) ⟨tag, text, "", xs ++ [c]⟩

theorem OpenTo.onSpine (h : OpenTo n e) (hk : ∀ e, e.tail = "" → (k e).tail = "") :
    OpenTo n (e.onSpine n k) := by
  induction h with
  | here tag text cs =>
    have htail := hk ⟨tag, text, "", cs⟩ rfl
    rw [Element.onSpine]
    generalize k ⟨tag, text, "", cs⟩ = e at htail ⊢
    obtain ⟨tag, text, tail, cs⟩ := e
    obtain rfl : tail = "" := htail
    exact .here tag text cs
  | down tag text xs _ ih =>
    rw [onSpine_succ, onLastChild_concat]
    exact .down tag text xs ih

theorem OpenTo.addChild (h : OpenTo n e) (hc : c.tail = "") :
    OpenTo (n + 1) (e.onSpine n (Element.addChild c)) := by
  induction h with
  | here tag text cs =>
    obtain ⟨ctag, ctext, ctail, ccs⟩ := c
    obtain rfl : ctail = "" := hc
    exact .down tag text cs (.here ctag ctext ccs)
  | down tag text xs _ ih =>
    rw [onSpine_succ, onLastChild_concat]
    exact .down tag text xs ih

theorem OpenTo.pred (h : OpenTo (n + 1) e) : OpenTo n e := by
  induction n generalizing e with
  | zero =>
    cases h with
    | down tag text xs _ => exact .here tag text _
  | succ n ih =>
    cases h with
    | down tag text xs h => exact .down tag text xs (ih h)

/-- The last child is the end of an element without a tail. -/
theorem source_concat (tag text : String) (xs : List Element) (c : Element) :
    source ⟨tag, text, "", xs ++ [c]⟩ = text ++ sources xs ++ c.source := by
  rw [source, sources_append, sources, sources, String.append_empty, String.append_empty,
    String.append_assoc]

/-- What is appended at the end of an open spine is appended to the whole. -/
theorem OpenTo.source_onSpine (h : OpenTo n e)
    (hk : ∀ e, e.tail = "" → (k e).source = e.source ++ t) :
    (e.onSpine n k).source = e.source ++ t := by
  induction h with
  | here tag text cs => exact hk _ rfl
  | down tag text xs _ ih =>
    rw [onSpine_succ, onLastChild_concat, source_concat, source_concat, ih, String.append_assoc,
      String.append_assoc, String.append_assoc]

theorem source_addChild (c : Element) (he : e.tail = "") :
    (addChild c e).source = e.source ++ c.source := by
  obtain ⟨tag, text, tail, cs⟩ := e
  obtain rfl : tail = "" := he
  rw [addChild, source_concat, source, String.append_empty]

theorem source_addText (t : String) (he : e.tail = "") : (addText t e).source = e.source ++ t := by
  obtain ⟨tag, text, tail, cs⟩ := e
  obtain rfl : tail = "" := he
  rcases List.eq_nil_or_concat cs with rfl | ⟨xs, c, rfl⟩
  · simp [addText, source, sources]
  · rw [List.concat_eq_append, addText, if_neg (by simp), onLastChild_concat, source_concat,
      source_concat, source_append_tail, String.append_assoc, String.append_assoc,
      String.append_assoc]

theorem tail_addText (t : String) (e : Element) : (e.addText t).tail = e.tail := by
  rw [addText]
  split <;> rfl

end Element

/-! ## Sketches -/

/-- A tree under construction. -/
structure Sketch where
  element : Element
  /-- How many levels down the last children the open element is. -/
  depth : Nat

namespace Sketch

open Element

/-- Takes one event in. -/
def step (w : Sketch) : Event → Sketch
  | .start tag => ⟨w.element.onSpine w.depth (addChild { tag }), w.depth + 1⟩
  | .text s => ⟨w.element.onSpine w.depth (addText s), w.depth⟩
  | .finish => ⟨w.element, w.depth - 1⟩
  | .leaf tag s => ⟨w.element.onSpine w.depth (addChild { tag, text := s }), w.depth⟩

/-- A leaf is a start, a text and a finish. -/
theorem step_leaf (w : Sketch) (tag s : String) :
    ((w.step (.start tag)).step (.text s)).step .finish = w.step (.leaf tag s) := by
  have htext : addText s { tag } = { tag, text := s } := by simp [addText]
  rw [step, step, step, step, onSpine_succ_addChild, htext, Nat.add_sub_cancel]

/-- Takes events in, one after the other. -/
def run (w : Sketch) (events : List Event) : Sketch := events.foldl step w

/-- No element on the spine has a tail yet. -/
def Open (w : Sketch) : Prop := OpenTo w.depth w.element

theorem Open.step {w : Sketch} (h : w.Open) (e : Event) : (w.step e).Open := by
  cases e with
  | start tag => exact OpenTo.addChild h rfl
  | text s => exact OpenTo.onSpine h fun e he => (tail_addText s e).trans he
  | finish =>
    obtain ⟨e, n⟩ := w
    cases n with
    | zero => exact h
    | succ n => exact OpenTo.pred h
  | leaf tag s => exact OpenTo.onSpine h fun _ he => he

/-- What is fed is appended. -/
theorem source_step {w : Sketch} (h : w.Open) (e : Event) :
    (w.step e).element.source = w.element.source ++ e.fed := by
  cases e with
  | start tag =>
    have hnew : source { tag } = "" := by simp [source, sources]
    exact OpenTo.source_onSpine h fun e he => by rw [source_addChild _ he, hnew, Event.fed]
  | text s => exact OpenTo.source_onSpine h fun e he => source_addText s he
  | finish => exact String.append_empty.symm
  | leaf tag s =>
    have hleaf : source { tag, text := s } = s := by simp [source, sources]
    exact OpenTo.source_onSpine h fun e he => by rw [source_addChild _ he, hleaf, Event.fed]

theorem source_run {w : Sketch} (h : w.Open) (events : List Event) :
    (w.run events).element.source = w.element.source ++ String.join (events.map Event.fed) := by
  induction events generalizing w with
  | nil => simp [run]
  | cons e events ih =>
    rw [run, List.foldl_cons, ← run, ih (h.step e), source_step h, List.map_cons, String.join_cons,
      String.append_assoc]

/-! ## The events of an element -/

theorem run_append (w : Sketch) (xs ys : List Event) : w.run (xs ++ ys) = (w.run xs).run ys :=
  List.foldl_append

theorem run_eventsBelow {es : List Element}
    (ih : ∀ e ∈ es, ∀ w : Sketch,
      w.run e.eventsOf = ⟨w.element.onSpine w.depth (addChild e), w.depth⟩)
    (w : Sketch) : w.run (eventsBelow es) =
      ⟨w.element.onSpine w.depth fun e => { e with children := e.children ++ es }, w.depth⟩ := by
  induction es generalizing w with
  | nil =>
    rw [onSpine_eq_self fun ⟨_, _, _, _⟩ => by simp]
    rfl
  | cons e es ihes =>
    rw [eventsBelow, run_append, ih e List.mem_cons_self,
      ihes fun d hd => ih d (List.mem_cons_of_mem _ hd)]
    rw [onSpine_onSpine]
    congr 2
    funext d
    simp [addChild]

/-- The events of an element draw it as a child of the open one. -/
theorem run_eventsOf (e : Element) (w : Sketch) :
    w.run e.eventsOf = ⟨w.element.onSpine w.depth (addChild e), w.depth⟩ := by
  induction e using Element.induct generalizing w with
  | h tag text tail cs ih =>
    obtain ⟨e, n⟩ := w
    have htext : addText text { tag } = { tag, text } := by simp [addText]
    have hbelow := run_eventsBelow ih ⟨e.onSpine n (addChild { tag, text }), n + 1⟩
    rw [onSpine_succ_addChild] at hbelow
    rw [eventsOf, run, List.foldl_cons, List.foldl_cons, ← run, step, step,
      onSpine_succ_addChild, htext, run_append, hbelow]
    -- The element has been closed, so the text after it goes to its tail.
    rw [run, List.foldl_cons, List.foldl_cons, List.foldl_nil, step, step, Nat.add_sub_cancel,
      onSpine_onSpine]
    congr 2
    funext d
    simp [addText_addChild]

/-- The events of a root draw it, but for its tail, which is not among them. -/
theorem run_events (r : Element) :
    (⟨{ tag := r.tag }, 0⟩ : Sketch).run r.events = ⟨{ r with tail := "" }, 0⟩ := by
  have hbelow : (⟨{ tag := r.tag, text := r.text }, 0⟩ : Sketch).run (eventsBelow r.children) = _ :=
    run_eventsBelow (fun e _ => run_eventsOf e) _
  have htext : addText r.text { tag := r.tag } = { tag := r.tag, text := r.text } := by
    simp [addText]
  rw [events, run, List.foldl_cons, ← run, step, onSpine, htext, hbelow]
  rfl

end Sketch

end FortranLayout
