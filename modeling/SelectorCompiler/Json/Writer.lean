import SelectorCompiler.Json.Quoted
import SelectorCompiler.Json.Value

/-!
# Writing JSON values

A value is written on one line without any space, or with every item on a line of its own, two
spaces deeper than its container. Both are one function of a layout. Containers without items take
no line break in either.
-/

namespace SelectorCompiler.Json

/-- Where spaces and line breaks go. -/
structure Layout where
  /-- What stands before an item, or before the end of a container, at a depth of nesting. -/
  lineBreak : Nat → List Char
  /-- What stands between a key and its value. -/
  colon : List Char

/-- No space at all. -/
def Layout.compact : Layout := ⟨fun _ ↦ [], [':']⟩

/-- Every item on a line of its own. -/
def Layout.indented : Layout := ⟨fun depth ↦ '\n' :: List.replicate (2 * depth) ' ', [':', ' ']⟩

namespace Value

mutual

/-- The text of a value at a depth of nesting. -/
def write (layout : Layout) (depth : Nat) : Value → List Char
  | .null => ['n', 'u', 'l', 'l']
  | .bool true => ['t', 'r', 'u', 'e']
  | .bool false => ['f', 'a', 'l', 's', 'e']
  | .number text => text.toList
  | .string text => quote text.toList
  | .array [] => ['[', ']']
  | .array (item :: items) =>
    '[' :: (layout.lineBreak (depth + 1) ++ write layout (depth + 1) item ++
      writeItems layout (depth + 1) items ++ layout.lineBreak depth ++ [']'])
  | .object [] => ['{', '}']
  | .object ((key, value) :: members) =>
    '{' :: (layout.lineBreak (depth + 1) ++ quote key.toList ++ layout.colon ++
      write layout (depth + 1) value ++ writeMembers layout (depth + 1) members ++
      layout.lineBreak depth ++ ['}'])

/-- The further items of an array, each after a comma. -/
def writeItems (layout : Layout) (depth : Nat) : List Value → List Char
  | [] => []
  | item :: items =>
    ',' :: (layout.lineBreak depth ++ write layout depth item ++ writeItems layout depth items)

/-- The further members of an object, each after a comma. -/
def writeMembers (layout : Layout) (depth : Nat) : List (String × Value) → List Char
  | [] => []
  | (key, value) :: members =>
    ',' :: (layout.lineBreak depth ++ quote key.toList ++ layout.colon ++
      write layout depth value ++ writeMembers layout depth members)

end

/-- The text of a value on one line. -/
def compact (value : Value) : String :=
  String.ofList (value.write .compact 0)

/-- The text of a value with indented lines. -/
def pretty (value : Value) : String :=
  String.ofList (value.write .indented 0)

end Value

end SelectorCompiler.Json
