import SelectorCompiler.Selector.Reading

/-!
# Cursors

A cursor gives the items of a selector one at a time, each when it is asked for: the segments, then
the error if reading gets stuck, and then nothing, however often it is asked.

Specification §4.5, the loop of `cssToXpath`.
-/

namespace SelectorCompiler

open Text

/-- A place in a selector. -/
structure Cursor where
  /-- The text that is not read yet. -/
  rest : List Char
  /-- An item was asked for before. -/
  started : Bool
  /-- The last item was an error. -/
  failed : Bool
deriving DecidableEq, Repr

namespace Cursor

/-- The cursor at the front of a selector, white space around it aside. -/
def ofSelector (selector : String) : Cursor := ⟨trim selector.toList, false, false⟩

/-- No item is left after an error, nor when the text is read. An empty text is read only after it
was asked for an item, which is an error. -/
def done (cursor : Cursor) : Bool :=
  cursor.failed || cursor.started && cursor.rest.isEmpty

/-- The next item, and the cursor after it. -/
def next (cursor : Cursor) : Option (Except CompileError Segment) × Cursor :=
  if cursor.done then (none, cursor)
  else
    let cut := Parts.read cursor.rest
    if cut.1.text = [] then
      (some (.error (.invalidSelector (String.ofList cursor.rest))), ⟨cursor.rest, true, true⟩)
    else (some (.ok cut.1.segment), ⟨trimStart cut.2, true, false⟩)

/-- What a cursor answers when it is asked `count` times. -/
def pulls (cursor : Cursor) : Nat → List (Option (Except CompileError Segment))
  | 0 => []
  | count + 1 => cursor.next.1 :: cursor.next.2.pulls count

end Cursor

end SelectorCompiler
