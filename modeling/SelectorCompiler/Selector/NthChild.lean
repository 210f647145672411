import SelectorCompiler.Text.WhiteSpace

/-!
# Arguments of `:nth-child`

The argument is `odd`, `even`, a number, or a formula such as `3n+1` for every third child from the
first on. A number is kept as it is written, since it is written out again.

Specification §4.3 (PseudoClassTranslator). Selectors Level 4 §14.4.1.
-/

namespace SelectorCompiler

/-- What `:nth-child` asks of the place of an element among its siblings. -/
inductive NthArgument where
  /-- Every second place from the first on. -/
  | odd
  /-- Every second place from the second on. -/
  | even
  /-- The place with this number, as written. -/
  | index (numeral : String)
  /-- The places `offset`, `offset + step`, and so on; both are runs of digits. -/
  | every (step offset : String)
deriving DecidableEq, Repr

namespace NthArgument

/-- The text after one leading sign, if there is one. -/
def dropSign : List Char → List Char
  | '+' :: text => text
  | '-' :: text => text
  | text => text

/-- The text is a run of digits with at least one digit. -/
def isDigits (text : List Char) : Bool :=
  !text.isEmpty && text.all Char.isDigit

/-- The text is an exponent or nothing. -/
def isExponentPart : List Char → Bool
  | [] => true
  | mark :: text => (mark == 'e' || mark == 'E') && isDigits (dropSign text)

/-- The digits after a decimal point, and what follows them. Without a point there are none. -/
def fraction : List Char → List Char × List Char
  | '.' :: text => (text.takeWhile Char.isDigit, text.dropWhile Char.isDigit)
  | text => ([], text)

/-- The text is a decimal number: white space aside, an optional sign, digits with an optional
point before, among or after them, and an optional exponent. -/
def isDecimal (text : List Char) : Bool :=
  let body := dropSign (Text.trim text)
  let whole := body.takeWhile Char.isDigit
  let tail := fraction (body.dropWhile Char.isDigit)
  !(whole.isEmpty && tail.1.isEmpty) && isExponentPart tail.2

/-- The two runs of digits of a formula such as `3n+1`. -/
def formula? (text : List Char) : Option (List Char × List Char) :=
  let isN (c : Char) := c == 'n' || c == 'N'
  let step := text.takeWhile (fun c ↦ !isN c)
  match text.dropWhile (fun c ↦ !isN c) with
  | _ :: '+' :: offset => if isDigits step && isDigits offset then some (step, offset) else none
  | _ => none

/-- Read the text of an argument. -/
def ofText? (text : String) : Option NthArgument :=
  if text = "odd" then some .odd
  else if text = "even" then some .even
  else if isDecimal text.toList then some (.index text)
  else (formula? text.toList).map fun runs ↦ .every (String.ofList runs.1) (String.ofList runs.2)

end NthArgument

end SelectorCompiler
