import FortranLayout.Comments
import FortranLayout.Proofs.Forest.OfElement

/-!
# Elements without their comments

What is left of an element when the comments below it are removed (`CommentOptions.strip`), and the
source that is left of it (`CommentOptions.remaining`): of a removed comment only the tail. The tail
goes to the sibling before it, or to the text of the parent, past comments that are themselves
removed; so the source of what is left is the source that is left (`CommentOptions.source_strip`).
-/

namespace FortranLayout

namespace CommentOptions

/-- Whether an element is a comment to remove. -/
def drops (o : CommentOptions) (e : Element) : Bool :=
  e.kind == .comment && !o.excludedDirectives.any (Text.beginsWith · e.text)

mutual

/-- The source of an element without the comments to remove, of which the tails stay. -/
def remaining (o : CommentOptions) : Element → String
  | ⟨_, text, tail, children⟩ => text ++ o.remainings children ++ tail

/-- The source of a list of elements without the comments to remove. -/
def remainings (o : CommentOptions) : List Element → String
  | [] => ""
  | e :: es => (if o.drops e then e.tail else o.remaining e) ++ o.remainings es

end

/-- The tails of the removed comments with which a list of elements begins. -/
def lead (o : CommentOptions) : List Element → String
  | [] => ""
  | e :: es => if o.drops e then e.tail ++ o.lead es else ""

mutual

/-- An element without the comments below it. -/
def strip (o : CommentOptions) : Element → Element
  | ⟨tag, text, tail, children⟩ => ⟨tag, text ++ o.lead children, tail, o.stripAll children⟩

/-- What is left of a list of elements. The tails of removed comments go to the element before them.
-/
def stripAll (o : CommentOptions) : List Element → List Element
  | [] => []
  | e :: es =>
    if o.drops e then o.stripAll es
    else { o.strip e with tail := e.tail ++ o.lead es } :: o.stripAll es

end

theorem tail_strip (o : CommentOptions) (e : Element) : (o.strip e).tail = e.tail := by
  cases e
  rw [strip]

/-- Taking comments out does not look at the tail of an element. -/
theorem strip_setTail (o : CommentOptions) (e : Element) (t : String) :
    o.strip { e with tail := t } = { o.strip e with tail := t } := by
  cases e
  rw [strip, strip]

/-- The source of what is left is the source that is left. -/
theorem source_strip (o : CommentOptions) (e : Element) : (o.strip e).source = o.remaining e := by
  induction e using Element.induct with
  | h tag text tail cs ih =>
    have hcs : o.lead cs ++ Element.sources (o.stripAll cs) = o.remainings cs := by
      induction cs with
      | nil => rfl
      | cons c cs ihcs =>
        obtain ⟨hc, hcs⟩ := List.forall_mem_cons.mp ih
        rw [lead, stripAll, remainings, ← ihcs hcs]
        cases o.drops c with
        | true => simp only [if_true, String.append_assoc]
        | false =>
          have htail := Element.source_append_tail (o.strip c) (o.lead cs)
          rw [tail_strip] at htail
          simp only [Bool.false_eq_true, if_false, Element.sources, htail, hc, String.append_assoc,
            String.empty_append]
    simp only [strip, Element.source, remaining, ← hcs, String.append_assoc]

end CommentOptions

namespace Element

/-! ## Text between children -/

/-- The element with the children `es` and `fs`, between which a text has been left: in the tail of
the last of `es`, or in the text of the element. -/
def leaveBetween (e : Element) (es : List Element) (t : String) (fs : List Element) : Element :=
  match es.getLast? with
  | some last => { e with children := es.dropLast ++ { last with tail := last.tail ++ t } :: fs }
  | none => { e with text := e.text ++ t, children := fs }

theorem leaveBetween_nil (e : Element) (t : String) (fs : List Element) :
    e.leaveBetween [] t fs = { e with text := e.text ++ t, children := fs } := rfl

theorem leaveBetween_concat (e : Element) (es : List Element) (c : Element) (t : String)
    (fs : List Element) :
    e.leaveBetween (es ++ [c]) t fs =
      { e with children := es ++ { c with tail := c.tail ++ t } :: fs } := by
  simp [leaveBetween]

theorem leaveBetween_children (e : Element) (cs es : List Element) (t : String)
    (fs : List Element) :
    ({ e with children := cs } : Element).leaveBetween es t fs = e.leaveBetween es t fs := by
  rcases List.eq_nil_or_concat es with rfl | ⟨es, c, rfl⟩
  · rfl
  · rw [List.concat_eq_append, leaveBetween_concat, leaveBetween_concat]

/-- Leaving no text only enters the children. -/
theorem leaveBetween_empty (e : Element) (es fs : List Element) :
    e.leaveBetween es "" fs = { e with children := es ++ fs } := by
  rcases List.eq_nil_or_concat es with rfl | ⟨es, c, rfl⟩
  · rw [leaveBetween_nil, String.append_empty, List.nil_append]
  · rw [List.concat_eq_append, leaveBetween_concat, String.append_empty, List.append_assoc]
    cases c
    rfl

end Element

end FortranLayout
