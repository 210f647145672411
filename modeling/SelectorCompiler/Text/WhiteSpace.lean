/-!
# White space

The characters with the Unicode property `White_Space`, and texts with them taken off at the ends.
Selectors, selector lists and numerals inside pseudo-classes all use this one notion of blank.
-/

namespace SelectorCompiler.Text

/-- The character has the Unicode property `White_Space`: 25 code points, the zero-width ones
(such as U+200B and U+FEFF) and the information separators U+001C to U+001F not among them. -/
def isWhiteSpace (c : Char) : Bool :=
  let n := c.toNat
  (0x09 ≤ n && n ≤ 0x0D) || n == 0x20 || n == 0x85 || n == 0xA0 || n == 0x1680 ||
    (0x2000 ≤ n && n ≤ 0x200A) || n == 0x2028 || n == 0x2029 || n == 0x202F || n == 0x205F ||
    n == 0x3000

/-- The text without the white space it begins with. -/
def trimStart (text : List Char) : List Char :=
  text.dropWhile isWhiteSpace

/-- The text without the white space it ends with. -/
def trimEnd (text : List Char) : List Char :=
  (text.reverse.dropWhile isWhiteSpace).reverse

/-- The text without white space at either end. -/
def trim (text : List Char) : List Char :=
  trimEnd (trimStart text)

/-- Trimming a string trims the list of its characters. -/
def trimString (text : String) : String :=
  String.ofList (trim text.toList)

@[simp]
theorem toList_trimString (text : String) : (trimString text).toList = trim text.toList := by
  simp [trimString]

/-- A text splits into its leading white space and the rest. -/
theorem takeWhile_append_trimStart (text : List Char) :
    text.takeWhile isWhiteSpace ++ trimStart text = text :=
  List.takeWhile_append_dropWhile

/-- What is left after trimming the front is a suffix of the text. -/
theorem trimStart_suffix (text : List Char) : trimStart text <:+ text :=
  List.dropWhile_suffix _

/-- What is left after trimming the end is the front part of the text. -/
theorem trimEnd_prefix (text : List Char) : trimEnd text <+: text := by
  have h := List.dropWhile_suffix (l := text.reverse) isWhiteSpace
  simpa [trimEnd] using List.reverse_prefix.mpr h

end SelectorCompiler.Text
