/-!
# Selector languages

An expression is a list of CSS selectors, or already an XPath expression.

Specification §10.4.
-/

namespace SelectorCompiler

/-- The language of an expression. -/
inductive Language where
  | css
  | xpath
deriving DecidableEq, Repr, Inhabited

namespace Language

/-- The name of a language. -/
def name : Language → String
  | .css => "CSS"
  | .xpath => "XPATH"

/-- The language with this name, the case of ASCII letters aside. -/
def ofName? (text : String) : Option Language :=
  let upper := text.toList.map Char.toUpper
  if upper = "CSS".toList then some .css
  else if upper = "XPATH".toList then some .xpath
  else none

/-- The language that a free text asks for: CSS unless it is the name of another one. -/
def ofToken (text : String) : Language :=
  (ofName? text).getD .css

end Language

end SelectorCompiler
