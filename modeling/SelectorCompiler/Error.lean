/-!
# Compilation errors

Why a selector does not compile, and the wording of each reason.

Specification §§7 and 10.2.
-/

namespace SelectorCompiler

/-- The two reasons for which a selector has no path. -/
inductive CompileError where
  /-- No simple selector stands at the front of `rest`, the part still unread. -/
  | invalidSelector (rest : String)
  /-- A pseudo-class, with the text of its argument if it has one, has no predicate. -/
  | unsupportedPseudoClass (name : String) (expression : Option String)
deriving DecidableEq, Repr

/-- The line that tells a user about the error. -/
def CompileError.message : CompileError → String
  | .invalidSelector rest => "Invalid selector: '" ++ rest ++ "'"
  | .unsupportedPseudoClass name _ => "Invalid selector: unknown pseudo-class ':" ++ name ++ "'"

end SelectorCompiler
