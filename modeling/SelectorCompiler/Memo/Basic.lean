import SelectorCompiler.Json.Value
import SelectorCompiler.OrderedMap

/-!
# Memos

A memo maps selectors that were compiled to their paths, in the order in which they were first
stored. As JSON it is an object of strings. There are two ways back: `Memo.ofValue` takes the
members in the order of their keys and says what is wrong with a value that is no memo;
`Memo.ofDocument?` keeps the order of the document.

Specification §§4.1 (Cache) and 10.5.
-/

namespace SelectorCompiler

/-- Compiled selectors with their paths. -/
abbrev Memo := OrderedMap String String

/-- Why a JSON value is no memo: its kind, or the kind of the member with this key. -/
structure Rejection where
  /-- The kind that was found in place of an object, or in place of a string. -/
  kind : Json.Kind
  /-- The key of the member that is no string. -/
  key : Option String
deriving DecidableEq, Repr

/-- What was found in place of a mapping of strings. -/
def Rejection.found (rejection : Rejection) : String :=
  match rejection.key with
  | none => rejection.kind.name
  | some key => rejection.kind.name ++ " for key '" ++ key ++ "'"

/-- The line that tells a user about the rejection. -/
def Rejection.message (rejection : Rejection) : String :=
  "set_compiled expects a mapping of strings, " ++ rejection.found ++ " given"

namespace Memo

/-- The memo as a JSON object, its entries in order. -/
def toValue (memo : Memo) : Json.Value :=
  .object (memo.entries.map fun entry ↦ (entry.1, .string entry.2))

/-- The members of an object as strings; the first that is none is reported. -/
def strings : List (String × Json.Value) → Except Rejection (List (String × String))
  | [] => .ok []
  | (key, .string text) :: members => (strings members).map ((key, text) :: ·)
  | (key, value) :: _ => .error ⟨value.kind, some key⟩

/-- The memo that an object of strings describes, its entries in the order of their keys. Of a
repeated key the last value counts. -/
def ofValue : Json.Value → Except Rejection Memo
  | .object members =>
    (strings (OrderedMap.ofList members).sorted.entries).map OrderedMap.ofList
  | value => .error ⟨value.kind, none⟩

/-- The memo that an object of strings describes, its entries in the order of the document. Every
member must be a string, also one whose key comes again. -/
def ofDocument? : Json.Value → Option Memo
  | .object members => (strings members).toOption.map OrderedMap.ofList
  | _ => none

end Memo

end SelectorCompiler
