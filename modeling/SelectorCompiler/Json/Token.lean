import SelectorCompiler.Json.Numeral
import SelectorCompiler.Json.Quoted

/-!
# Tokens

A JSON text is a sequence of tokens with white space between them: only the space, the tab, the
line feed and the carriage return count as such.
-/

namespace SelectorCompiler.Json

/-- A token of a JSON text. -/
inductive Token where
  | openArray
  | closeArray
  | openObject
  | closeObject
  | comma
  | colon
  | null
  | bool (value : Bool)
  | number (text : String)
  | string (text : String)
deriving DecidableEq, Repr

/-- The character may stand between tokens. -/
def isSpace (c : Char) : Bool :=
  c == ' ' || c == '\t' || c == '\n' || c == '\r'

namespace Token

/-- The token at the front of a text, and what follows it. -/
def read? : List Char → Option (Token × List Char)
  | '[' :: rest => some (.openArray, rest)
  | ']' :: rest => some (.closeArray, rest)
  | '{' :: rest => some (.openObject, rest)
  | '}' :: rest => some (.closeObject, rest)
  | ',' :: rest => some (.comma, rest)
  | ':' :: rest => some (.colon, rest)
  | 'n' :: 'u' :: 'l' :: 'l' :: rest => some (.null, rest)
  | 't' :: 'r' :: 'u' :: 'e' :: rest => some (.bool true, rest)
  | 'f' :: 'a' :: 'l' :: 's' :: 'e' :: rest => some (.bool false, rest)
  | '"' :: text => (unquote? text).map fun read ↦ (.string (String.ofList read.1), read.2)
  | text =>
    match Numeral.read? text with
    | none => none
    | some (numeral, rest) =>
      if numeral.inRange then some (.number (String.ofList numeral.text), rest) else none

/-- A token takes at least one character. -/
theorem length_lt_of_read? {text rest : List Char} {token : Token}
    (h : read? text = some (token, rest)) : rest.length < text.length := by
  unfold read? at h
  split at h
  case h_10 text =>
    obtain ⟨read, hread, hpair⟩ := Option.map_eq_some_iff.mp h
    simp only [Prod.mk.injEq] at hpair
    obtain ⟨_, rfl⟩ := hpair
    have := length_lt_of_unquote? hread
    simp only [List.length_cons]
    omega
  case h_11 =>
    split at h
    · simp at h
    · next hnumeral =>
      split at h
      · simp only [Option.some.injEq, Prod.mk.injEq] at h
        obtain ⟨_, rfl⟩ := h
        exact Numeral.length_lt_of_read? hnumeral
      · simp at h
  all_goals
    simp only [Option.some.injEq, Prod.mk.injEq] at h
    obtain ⟨_, rfl⟩ := h
    simp only [List.length_cons]
    omega

/-- All tokens of a text. -/
def scan (text : List Char) : Option (List Token) :=
  let front := text.dropWhile isSpace
  if front = [] then some []
  else
    match _h : read? front with
    | none => none
    | some (token, rest) => (scan rest).map (token :: ·)
termination_by text.length
decreasing_by
  have hlt := length_lt_of_read? _h
  have hle := (List.dropWhile_suffix (l := text) isSpace).length_le
  exact Nat.lt_of_lt_of_le hlt hle

end Token

end SelectorCompiler.Json
