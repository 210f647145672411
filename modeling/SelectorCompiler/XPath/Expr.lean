/-!
# XPath expressions

The expressions that stand inside the predicates of a location path, as trees, and their text.
The trees cover the part of the language that selectors need: attributes, positions, three string
functions, and the operators on them.

XPath 1.0 §§2.4 (predicates) and 4.2 (string functions).
-/

namespace SelectorCompiler.XPath

/-- The mark at both ends of a string literal. -/
inductive Quote where
  | single
  | double
deriving DecidableEq, Repr

/-- The text of a quotation mark. -/
def Quote.text : Quote → String
  | .single => "'"
  | .double => "\""

/-- An expression. -/
inductive Expr where
  /-- A string literal; its text is written as it is. -/
  | literal (quote : Quote) (text : String)
  /-- A number, written as `text`. -/
  | numeral (text : String)
  /-- The attribute of the context node with this name. -/
  | attribute (name : String)
  /-- The position of the context node among the nodes of its step. -/
  | position
  /-- The number of nodes of the step. -/
  | last
  /-- The string with white space collapsed. -/
  | normalizeSpace (text : Expr)
  /-- Three strings in a row. -/
  | concat (first second third : Expr)
  /-- The string `part` occurs in `text`. -/
  | contains (text part : Expr)
  /-- The difference of two numbers. -/
  | minus (left right : Expr)
  /-- The remainder of a division. -/
  | modulo (left right : Expr)
  /-- Equality. -/
  | equal (left right : Expr)
  /-- The left number is at least the right one. -/
  | atLeast (left right : Expr)
  /-- Conjunction. -/
  | both (left right : Expr)
  /-- An expression in parentheses. -/
  | group (inner : Expr)
deriving DecidableEq, Repr

/-- The text of an expression. A comparison with an attribute is written without spaces, any other
one with a space on both sides. -/
def Expr.render : Expr → String
  | .literal quote text => quote.text ++ text ++ quote.text
  | .numeral text => text
  | .attribute name => "@" ++ name
  | .position => "position()"
  | .last => "last()"
  | .normalizeSpace text => "normalize-space(" ++ text.render ++ ")"
  | .concat first second third =>
    "concat(" ++ first.render ++ ", " ++ second.render ++ ", " ++ third.render ++ ")"
  | .contains text part => "contains(" ++ text.render ++ ", " ++ part.render ++ ")"
  | .minus left right => left.render ++ " -" ++ right.render
  | .modulo left right => left.render ++ " mod " ++ right.render
  | .equal (.attribute name) right => "@" ++ name ++ "=" ++ right.render
  | .equal left right => left.render ++ " = " ++ right.render
  | .atLeast left right => left.render ++ " >= " ++ right.render
  | .both left right => left.render ++ " and " ++ right.render
  | .group inner => "(" ++ inner.render ++ ")"

/-- One condition stands as it is; several are put in parentheses and joined. -/
def Expr.conjunction? : List Expr → Option Expr
  | [] => none
  | [condition] => some condition
  | first :: rest => some (rest.foldl (fun joined next ↦ .both joined (.group next)) (.group first))

end SelectorCompiler.XPath
