import SelectorCompiler.Json.Token
import SelectorCompiler.Json.Value

/-!
# Reading JSON values

The tokens of a text are read one by one. The reader keeps the containers that are open, the
innermost first, each with what it holds so far in reverse order; a value that ends goes into the
innermost container. Containers nest up to a limit.
-/

namespace SelectorCompiler.Json

/-- An open container that waits for a value. -/
inductive Frame where
  /-- An array with these items so far. -/
  | array (items : List Value)
  /-- An object with these members so far, and the key of the value that comes next. -/
  | member (members : List (String × Value)) (key : String)
deriving Repr

/-- What may come next. -/
inductive Expecting where
  /-- A value. -/
  | nextValue (stack : List Frame)
  /-- The first item of an array, or its end. -/
  | firstItem (stack : List Frame)
  /-- A comma, or the end of an array. -/
  | afterItem (items : List Value) (stack : List Frame)
  /-- The first key of an object, or its end. -/
  | firstKey (stack : List Frame)
  /-- A further key of an object. -/
  | nextKey (members : List (String × Value)) (stack : List Frame)
  /-- The colon after a key. -/
  | colon (members : List (String × Value)) (key : String) (stack : List Frame)
  /-- A comma, or the end of an object. -/
  | afterMember (members : List (String × Value)) (stack : List Frame)
  /-- The end of the text. -/
  | nothing (value : Value)
deriving Repr

/-- The number of containers that may be open at once. -/
def maxDepth : Nat := 127

/-- A value has ended: it goes into the innermost open container, or it is the whole text. -/
def Expecting.after (value : Value) : List Frame → Expecting
  | [] => .nothing value
  | .array items :: stack => .afterItem (value :: items) stack
  | .member members key :: stack => .afterMember ((key, value) :: members) stack

/-- The token begins a value. -/
def Expecting.begin (stack : List Frame) : Token → Option Expecting
  | .null => some (after .null stack)
  | .bool value => some (after (.bool value) stack)
  | .number text => some (after (.number text) stack)
  | .string text => some (after (.string text) stack)
  | .openArray => if stack.length < maxDepth then some (.firstItem stack) else none
  | .openObject => if stack.length < maxDepth then some (.firstKey stack) else none
  | _ => none

/-- Read one token. -/
def Expecting.step : Expecting → Token → Option Expecting
  | .nextValue stack, token => begin stack token
  | .firstItem stack, .closeArray => some (after (.array []) stack)
  | .firstItem stack, token => begin (.array [] :: stack) token
  | .afterItem items stack, .comma => some (.nextValue (.array items :: stack))
  | .afterItem items stack, .closeArray => some (after (.array items.reverse) stack)
  | .firstKey stack, .closeObject => some (after (.object []) stack)
  | .firstKey stack, .string key => some (.colon [] key stack)
  | .nextKey members stack, .string key => some (.colon members key stack)
  | .colon members key stack, .colon => some (.nextValue (.member members key :: stack))
  | .afterMember members stack, .comma => some (.nextKey members stack)
  | .afterMember members stack, .closeObject => some (after (.object members.reverse) stack)
  | _, _ => none

/-- The value that a sequence of tokens spells. -/
def Value.ofTokens? (tokens : List Token) : Option Value :=
  match tokens.foldlM Expecting.step (.nextValue []) with
  | some (.nothing value) => some value
  | _ => none

/-- The value of a JSON text. -/
def Value.parse? (text : String) : Option Value :=
  (Token.scan text.toList).bind Value.ofTokens?

end SelectorCompiler.Json
