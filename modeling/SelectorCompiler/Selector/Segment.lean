import SelectorCompiler.OrderedMap

/-!
# Segments

A selector such as `div#main > ul.nav li:first-child` is a chain of simple selectors, here called
segments. A segment names an element type and lists the conditions on the element.

Specification §3 (Segment). Selectors Level 4 §§5.1, 5.2, 6.1, 6.6, 6.7 and 16.2.
-/

namespace SelectorCompiler

/-- A pseudo-class with the text between its parentheses, if there is one. -/
structure PseudoClass where
  /-- The name without its colon. -/
  name : String
  /-- The text between the parentheses. -/
  expression : Option String
deriving DecidableEq, Repr

/-- One simple selector. -/
structure Segment where
  /-- The exact text of the segment, with the white space and the `>` that end it. -/
  selector : String
  /-- The element type; `*` stands for any. -/
  tag : String
  /-- The value that the `id` attribute must have. -/
  id : Option String
  /-- The classes that the element must have, in the order of the text. -/
  classes : List String
  /-- The attributes that the element must have, with the value of each that must have one. -/
  attributes : OrderedMap String (Option String)
  /-- The pseudo-class. -/
  pseudo : Option PseudoClass
  /-- The next segment is a child of this one and not any descendant. -/
  child : Bool
deriving DecidableEq, Repr

/-- The element type of a segment that names none. -/
def universalTag : String := "*"

end SelectorCompiler
