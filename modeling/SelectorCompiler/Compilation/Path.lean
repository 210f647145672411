import SelectorCompiler.Compilation.Predicate
import SelectorCompiler.Selector.Reading
import SelectorCompiler.XPath.Path

/-!
# Paths of a selector

Each segment becomes one step. The relation that ends a segment decides the axis of the next step.
A selector is compiled from left to right: a segment without a predicate is reported even when the
text after it cannot be read.

Specification §§4.4 (XPathBuilder), 4.5 and 10.6. Selectors Level 4 §§16.1 and 16.2.
-/

namespace SelectorCompiler

open XPath

/-- The axis of the step that follows a segment. -/
def Segment.nextAxis (segment : Segment) : Axis :=
  if segment.child then .child else .descendant

/-- The step of a segment. -/
def Segment.step (segment : Segment) (axis : Axis) : Except CompileError Step :=
  segment.conditions.map fun conditions ↦ ⟨axis, segment.tag, Expr.conjunction? conditions⟩

/-- The steps of a chain of segments, the first of them reached by `axis`. -/
def Segment.path (axis : Axis) : List Segment → Except CompileError Path
  | [] => .ok []
  | segment :: rest => do
    let step ← segment.step axis
    let later ← Segment.path segment.nextAxis rest
    return step :: later

/-- The path of a reading. Segments that were read are compiled first, so that their errors come
before the one of the place where reading got stuck. -/
def Reading.path (reading : Reading) (axis : Axis) : Except CompileError Path := do
  let path ← Segment.path axis reading.segments
  match reading.error? with
  | none => return path
  | some error => throw error

/-- Compile a selector without commas to the text of a path, the first step reached by `axis`. -/
def compileSelector (selector : String) (axis : Axis) : Except CompileError String :=
  ((Reading.ofSelector selector).path axis).map Path.render

end SelectorCompiler
