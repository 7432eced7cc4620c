import FortranLayout.Continuation.Options
import FortranLayout.Forest.Basic
import FortranLayout.Text.Blank
import FortranLayout.Text.Whitespace

/-!
# Inserting and removing markers

Below each node the children are visited from the last to the first, so that inserting or taking out
nodes never moves a child that is still to be visited.
-/

namespace FortranLayout

/-- A forest whose markers are being revised. -/
structure MarkerDraft where
  forest : Forest
  report : MarkerReport := {}

/-- Whether `c` is something else than layout: not a blank, a tab or a newline. -/
def isCode (c : Char) : Bool := c != ' ' && c != '\n' && c != '\t'

namespace MarkerDraft

/-- Enters a new marker with the given tail at position `index` below `parent`. -/
def insertMarker (m : MarkerDraft) (parent : NodeId) (index : Nat) (tail : List Char) :
    MarkerDraft where
  forest :=
    (m.forest.add { tag := "cnt", text := "&", tail := String.ofList tail }).insertChild
      parent index m.forest.size
  report := { m.report with inserted := m.report.inserted + 1 }

/-- Makes sure that the line after `marker`, the child at `index` of `parent`, begins with a marker.
`comments` are the comments and directives after the marker and `next` is the child after those.
Code in the tail of the marker, or of the last comment, goes to the new marker. -/
def addBegin (m : MarkerDraft) (parent : NodeId) (index : Nat) (marker : NodeId)
    (comments : List NodeId) (next : Option NodeId) : MarkerDraft :=
  let tail := (m.forest.tail marker).toList
  let layout := tail.takeWhile (!isCode ·)
  let code := tail.dropWhile (!isCode ·)
  if !code.isEmpty then
    let m := { m with forest := m.forest.setTail marker (String.ofList layout) }
    m.insertMarker parent (index + 1) (' ' :: code)
  else if next.any (m.forest.kind · != .continuation) then
    match comments.getLast? with
    | none => m.insertMarker parent (index + 1) [' ']
    | some last =>
      let tail := (m.forest.tail last).toList
      let layout := tail.takeWhile (!isCode ·)
      let code := tail.dropWhile (!isCode ·)
      let m := { m with forest := m.forest.setTail last (String.ofList layout) }
      m.insertMarker parent (index + 1 + comments.length) (' ' :: code)
  else m

/-- Removes `marker`, the child at `index` of `parent`, with the comments after it. What its tail
holds stays, and one blank in place of the line break. A directive among the comments keeps itself
and the marker. -/
def removeMarker (m : MarkerDraft) (parent : NodeId) (index : Nat) (marker : NodeId)
    (comments : List NodeId) : MarkerDraft :=
  let dropped := comments.reverse.filter (m.forest.kind · != .directive)
  let f := dropped.foldl (fun f c => f.detach parent c) m.forest
  if comments.any (m.forest.kind · == .directive) then { m with forest := f }
  else
    let joined := Text.trim (f.tail marker).toList ++ [' ']
    { forest := (f.detach parent marker).appendBefore parent index (String.ofList joined)
      report := { m.report with removed := m.report.removed + 1 } }

/-- Revises the child at `index` of `parent`, if it is a marker. -/
def reviseChild (o : MarkerOptions) (m : MarkerDraft) (parent : NodeId) (index : Nat)
    (child : NodeId) : MarkerDraft :=
  if m.forest.kind child == .continuation then
    let after := (m.forest.children parent).drop (index + 1)
    let comments := after.takeWhile fun c => (m.forest.kind c).isCommentLike
    let next := after[comments.length]?
    let endsLine := Text.hasNewline (m.forest.tail child).toList || !comments.isEmpty
    let m := if endsLine && o.addBegin then m.addBegin parent index child comments next else m
    if o.removes endsLine then m.removeMarker parent index child comments else m
  else m

/-- `revise` down to depth `fuel`. -/
def reviseWithin (o : MarkerOptions) : Nat → NodeId → MarkerDraft → MarkerDraft
  | 0, _, m => m
  | fuel + 1, parent, m =>
    (List.range (m.forest.children parent).length).reverse.foldl (fun m index =>
      match (m.forest.children parent)[index]? with
      | none => m
      | some child => reviseWithin o fuel child (m.reviseChild o parent index child)) m

/-- Inserts and removes markers below `i`. New nodes have no children, so no way down gets longer
than the number of nodes at the start. -/
def revise (o : MarkerOptions) (i : NodeId) (m : MarkerDraft) : MarkerDraft :=
  reviseWithin o m.forest.size i m

end MarkerDraft

end FortranLayout
