import SelectorCompiler.XPath.Expr

/-!
# Location paths

A path is a list of steps. Each step goes from the nodes found so far to their descendants or
children, keeps those with the right name, and filters them by at most one predicate.

XPath 1.0 §2.5 (abbreviated syntax).
-/

namespace SelectorCompiler.XPath

/-- The way from one step of a path to the next. -/
inductive Axis where
  /-- To all descendants, written `//`. -/
  | descendant
  /-- To the children, written `/`. -/
  | child
deriving DecidableEq, Repr, Inhabited

/-- The text in front of a step. -/
def Axis.text : Axis → String
  | .descendant => "//"
  | .child => "/"

/-- A location step. -/
structure Step where
  /-- How the step is reached. -/
  axis : Axis
  /-- The name of the element; `*` stands for any. -/
  name : String
  /-- The predicate that the element must satisfy. -/
  predicate : Option Expr
deriving DecidableEq, Repr

/-- The text of a step; its predicate stands in brackets. -/
def Step.render (step : Step) : String :=
  step.axis.text ++ step.name ++
    match step.predicate with
    | none => ""
    | some predicate => "[" ++ predicate.render ++ "]"

/-- Steps one after another. -/
abbrev Path := List Step

/-- The text of a path. -/
def Path.render (path : Path) : String :=
  String.join (path.map Step.render)

end SelectorCompiler.XPath
