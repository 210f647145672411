/-!
# Terminal colours

Texts with the control sequences that change how a terminal shows them.

Specification §10.3.
-/

namespace SelectorCompiler

/-- How a terminal shows a text. -/
inductive Style where
  | dim
  | bold
  | green
  | yellow
deriving DecidableEq, Repr

namespace Style

/-- The number that turns the style on. -/
def on : Style → String
  | .dim => "2"
  | .bold => "1"
  | .green => "32"
  | .yellow => "33"

/-- The number that turns the style off: everything, or the colour alone. -/
def off : Style → String
  | .dim => "0"
  | .bold => "0"
  | .green => "39"
  | .yellow => "39"

/-- A text in the style. -/
def paint (style : Style) (text : String) : String :=
  "\x1b[" ++ style.on ++ "m" ++ text ++ "\x1b[" ++ style.off ++ "m"

end Style

end SelectorCompiler
