import SelectorCompiler.Json.Reader
import SelectorCompiler.Json.Writer
import SelectorCompiler.Memo.Basic

/-!
# Commands on a memo

Everything that can be done to a memo, as data, so that histories of a memo are lists. A command
that fails leaves the memo as it is.

Specification §§4.1 (Cache) and 10.5.
-/

namespace SelectorCompiler.Memo

/-- A command on a memo. -/
inductive Command where
  /-- Forget everything. -/
  | clear
  /-- Store a path for a selector. -/
  | store (selector path : String)
  /-- Look a selector up. -/
  | find (selector : String)
  /-- List the entries. -/
  | list
  /-- Forget everything and store these entries. -/
  | replace (entries : List (String × String))
  /-- Forget everything and store what a JSON value describes. -/
  | replaceFromValue (value : Json.Value)
  /-- Forget everything and store what the value of a JSON text describes. -/
  | replaceFromText (text : String)
  /-- Forget everything and store the members of a JSON text in the order of the document. -/
  | load (text : String)
  /-- Write the memo as JSON on one line. -/
  | writeCompact
  /-- Write the memo as JSON with indented lines. -/
  | writePretty
  /-- Compare the memo with these entries, their order aside. -/
  | compare (entries : List (String × String))

/-- What a command answers. -/
inductive Answer where
  /-- The command is done. -/
  | done
  /-- The path that was found, if any. -/
  | path (found : Option String)
  /-- The entries in order. -/
  | entries (entries : List (String × String))
  /-- A JSON text. -/
  | text (text : String)
  /-- The result of a comparison. -/
  | same (result : Bool)
  /-- The JSON value is no memo. -/
  | rejected (rejection : Rejection)
  /-- The text is no JSON text, or not one of the required shape. -/
  | malformed
deriving DecidableEq, Repr

/-- Replace a memo by what a JSON value describes. -/
def replaceFromValue (memo : Memo) (value : Json.Value) : Memo × Answer :=
  match ofValue value with
  | .ok replacement => (replacement, .done)
  | .error rejection => (memo, .rejected rejection)

/-- Perform a command. -/
def perform (memo : Memo) : Command → Memo × Answer
  | .clear => (.empty, .done)
  | .store selector path => (memo.insert selector path, .done)
  | .find selector => (memo, .path (memo.get? selector))
  | .list => (memo, .entries memo.entries)
  | .replace entries => (.ofList entries, .done)
  | .replaceFromValue value => memo.replaceFromValue value
  | .replaceFromText text =>
    match Json.Value.parse? text with
    | none => (memo, .malformed)
    | some value => memo.replaceFromValue value
  | .load text =>
    match (Json.Value.parse? text).bind ofDocument? with
    | none => (memo, .malformed)
    | some loaded => (loaded, .done)
  | .writeCompact => (memo, .text memo.toValue.compact)
  | .writePretty => (memo, .text memo.toValue.pretty)
  | .compare entries => (memo, .same (memo.sameEntries (.ofList entries)))

end SelectorCompiler.Memo
