import SelectorCompiler.Error
import SelectorCompiler.Selector.Parts

/-!
# Readings

Reading a selector from left to right gives its segments up to the end, or up to the first place
where no segment begins. Both are kept: a segment that was read stays available when a later one
is missing.

Specification §§4.2 (SegmentParser) and 10.6.
-/

namespace SelectorCompiler

open Text

/-- The segments read off the front of a text, and the text at which reading got stuck, if it
did. -/
structure Reading where
  /-- The segments in order. -/
  segments : List Segment
  /-- The unread rest, when no segment begins there. -/
  stuck : Option String
deriving DecidableEq, Repr

namespace Reading

/-- Read all segments of a text that begins with no white space. The white space after a segment
is skipped. An empty text has no segment, so reading is stuck at once. -/
def ofChars (text : List Char) : Reading :=
  let cut := Parts.read text
  let next := trimStart cut.2
  if _h : cut.1.text = [] then ⟨[], some (String.ofList text)⟩
  else if next = [] then ⟨[cut.1.segment], none⟩
  else
    let later := ofChars next
    ⟨cut.1.segment :: later.segments, later.stuck⟩
termination_by text.length
decreasing_by
  have hrest := Parts.length_rest_lt _h
  have hnext := (trimStart_suffix cut.2).length_le
  exact Nat.lt_of_le_of_lt hnext hrest

/-- Read a selector, white space around it aside. -/
def ofSelector (selector : String) : Reading :=
  ofChars (trim selector.toList)

/-- The error of a reading that got stuck. -/
def error? (reading : Reading) : Option CompileError :=
  reading.stuck.map .invalidSelector

/-- The segments and then the error, if there is one. -/
def items (reading : Reading) : List (Except CompileError Segment) :=
  reading.segments.map .ok ++ reading.error?.toList.map .error

/-- The segments of a reading that reached the end. -/
def chain (reading : Reading) : Except CompileError (List Segment) :=
  match reading.error? with
  | none => .ok reading.segments
  | some error => .error error

end Reading

/-- All segments of a selector. -/
def Segment.readAll (selector : String) : Except CompileError (List Segment) :=
  (Reading.ofSelector selector).chain

/-- The segment at the front of a selector, whatever follows it. -/
def Segment.readFirst (selector : String) : Except CompileError Segment :=
  let text := trim selector.toList
  let parts := (Parts.read text).1
  if parts.text = [] then .error (.invalidSelector (String.ofList text)) else .ok parts.segment

end SelectorCompiler
