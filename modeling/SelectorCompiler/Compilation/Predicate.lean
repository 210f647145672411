import SelectorCompiler.Error
import SelectorCompiler.Selector.NthChild
import SelectorCompiler.Selector.Segment
import SelectorCompiler.XPath.Expr

/-!
# Predicates of a segment

Every condition of a segment becomes one XPath expression. Names and values are copied as they are,
without quoting. A pseudo-class becomes a test of the position; `:first-child` and `:last-child`
become numbers, which XPath compares with the position when they stand alone in a predicate.

Specification §§4.3 (PseudoClassTranslator) and 4.4 (XPathBuilder). XPath 1.0 §§2.4 and 4.2.
-/

namespace SelectorCompiler

open XPath

/-- The position test of an `:nth-child` argument. -/
def NthArgument.predicate : NthArgument → Expr
  | .odd => every "2" "1"
  | .even =>
    .both (.equal (.modulo .position (.numeral "2")) (.numeral "0"))
      (.atLeast .position (.numeral "0"))
  | .index numeral => .equal .position (.numeral numeral)
  | .every step offset => every step offset
where
  /-- The places that are at least `offset` and differ from it by a multiple of `step`. -/
  every (step offset : String) : Expr :=
    .both
      (.equal (.modulo (.group (.minus .position (.numeral offset))) (.numeral step))
        (.numeral "0"))
      (.atLeast .position (.numeral offset))

/-- The predicate of a pseudo-class with the text between its parentheses, which is empty when
there is none. -/
def pseudoPredicate (name expression : String) : Except CompileError Expr :=
  let predicate? :=
    if name = "first-child" then some (.numeral "1")
    else if name = "last-child" then some .last
    else if name = "nth-child" then (NthArgument.ofText? expression).map NthArgument.predicate
    else none
  match predicate? with
  | some predicate => .ok predicate
  | none =>
    .error (.unsupportedPseudoClass name (if expression = "" then none else some expression))

/-- The predicate of a pseudo-class. -/
def PseudoClass.predicate (pseudo : PseudoClass) : Except CompileError Expr :=
  pseudoPredicate pseudo.name (pseudo.expression.getD "")

/-- The test for an attribute, with its value or for its presence. -/
def attributePredicate (name : String) : Option String → Expr
  | none => .attribute name
  | some value => .equal (.attribute name) (.literal .double value)

/-- The test that a class is among the words of the `class` attribute: between single spaces, the
words in a row contain the class between spaces. -/
def classPredicate (name : String) : Expr :=
  .contains
    (.concat (.literal .double " ") (.normalizeSpace (.attribute "class")) (.literal .double " "))
    (.literal .double (" " ++ name ++ " "))

namespace Segment

/-- The tests for the id, the attributes and the classes of a segment, in this order. -/
def elementConditions (segment : Segment) : List Expr :=
  segment.id.toList.map (fun id ↦ .equal (.attribute "id") (.literal .single id)) ++
    segment.attributes.entries.map (fun entry ↦ attributePredicate entry.1 entry.2) ++
    segment.classes.map classPredicate

/-- All conditions of a segment; the pseudo-class comes last. -/
def conditions (segment : Segment) : Except CompileError (List Expr) :=
  match segment.pseudo with
  | none => .ok segment.elementConditions
  | some pseudo => pseudo.predicate.map fun place ↦ segment.elementConditions ++ [place]

end Segment

end SelectorCompiler
