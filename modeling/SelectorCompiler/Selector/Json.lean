import SelectorCompiler.Json.Value
import SelectorCompiler.Selector.Segment

/-!
# Segments as JSON

A segment is written as an object with all its fields. Its attributes are an object too, with
`null` for an attribute that must only be present.

Specification §10.5.
-/

namespace SelectorCompiler

/-- A pseudo-class as a JSON object. -/
def PseudoClass.toValue (pseudo : PseudoClass) : Json.Value :=
  .object [("name", .string pseudo.name), ("expression", .ofOption pseudo.expression)]

namespace Segment

/-- A segment as a JSON object. -/
def toValue (segment : Segment) : Json.Value :=
  .object
    [("selector", .string segment.selector),
      ("tag", .string segment.tag),
      ("id", .ofOption segment.id),
      ("classes", .array (segment.classes.map .string)),
      ("attributes",
        .object (segment.attributes.entries.map fun entry ↦ (entry.1, .ofOption entry.2))),
      ("pseudo", (segment.pseudo.map PseudoClass.toValue).getD .null),
      ("child", .bool segment.child)]

/-- A chain of segments as a JSON array. -/
def chainValue (segments : List Segment) : Json.Value :=
  .array (segments.map toValue)

end Segment

end SelectorCompiler
