import SelectorCompiler.Selector.Segment
import SelectorCompiler.Text.Delimited
import SelectorCompiler.Text.WhiteSpace

/-!
# The parts of a segment

A segment is written as a tag, an id, a run of classes, bracketed clauses, a pseudo-class, white
space and `>`, in this order, each of them optional. `Parts.read` cuts these parts off the front of
a text; it takes the longest run that fits each part and never goes back. `Parts.text` puts the
parts together again, and `Parts.segment` says what they mean.

The main statement is `Parts.text_append_rest`: reading loses and repeats nothing.

Specification §§4.2 (SegmentParser) and 10.6.
-/

namespace SelectorCompiler

open Text

/-- The character can stand in a tag. -/
def isTagChar (c : Char) : Bool :=
  c.isAlphanum || c == '_' || c == '*' || c == '|' || c == '-'

/-- The character can stand in an id or in the name of a class. -/
def isIdChar (c : Char) : Bool :=
  c.isAlphanum || c == '_' || c == '|' || c == '-'

/-- The character can stand in a run of classes, where dots divide the names. -/
def isClassChar (c : Char) : Bool :=
  isIdChar c || c == '.'

/-- The character can stand in the name of a pseudo-class. -/
def isPseudoChar (c : Char) : Bool :=
  c.isAlphanum || c == '_' || c == '-'

/-- The texts of the parts of one segment. -/
structure Parts where
  /-- The tag, possibly empty. -/
  tag : List Char
  /-- The id after its `#`. -/
  id : Option (List Char)
  /-- The run of classes after its first dot. -/
  classes : Option (List Char)
  /-- The bodies of the bracketed clauses. -/
  clauses : List (List Char)
  /-- The name after the colon, possibly empty, and the text between the parentheses. -/
  pseudo : Option (List Char × Option (List Char))
  /-- The white space after the last condition. -/
  blank : List Char
  /-- The segment ends with `>`. -/
  child : Bool
deriving DecidableEq, Repr

/-! ## The text of each part -/

/-- A run of characters with the mark in front of it. -/
def markedText (mark : Char) : Option (List Char) → List Char
  | none => []
  | some run => mark :: run

/-- A clause with its brackets. -/
def clauseText (body : List Char) : List Char :=
  '[' :: (body ++ [']'])

/-- The argument of a pseudo-class with its parentheses. -/
def argumentText : Option (List Char) → List Char
  | none => []
  | some body => '(' :: (body ++ [')'])

/-- A pseudo-class with its colon. -/
def pseudoText : Option (List Char × Option (List Char)) → List Char
  | none => []
  | some (name, argument) => ':' :: (name ++ argumentText argument)

/-- The mark of a child. -/
def childText (child : Bool) : List Char :=
  if child then ['>'] else []

/-- The text of the parts, one after another. -/
def Parts.text (parts : Parts) : List Char :=
  parts.tag ++ markedText '#' parts.id ++ markedText '.' parts.classes ++
    parts.clauses.flatMap clauseText ++ pseudoText parts.pseudo ++ parts.blank ++
    childText parts.child

/-! ## Cutting off each part -/

/-- A mark with a run of at least one fitting character after it. -/
def readMarked (mark : Char) (fits : Char → Bool) : List Char → Option (List Char) × List Char
  | [] => (none, [])
  | c :: text =>
    if c = mark then
      match text.takeWhile fits with
      | [] => (none, c :: text)
      | run => (some run, text.dropWhile fits)
    else (none, c :: text)

/-- An id after its `#`. -/
def readId : List Char → Option (List Char) × List Char :=
  readMarked '#' isIdChar

/-- A run of classes after its first dot. -/
def readClasses : List Char → Option (List Char) × List Char :=
  readMarked '.' isClassChar

/-- Clauses one after another. Each ends at the first `]`; one that never ends is left. -/
def readClauses : List Char → List (List Char) × List Char
  | '[' :: text =>
    match _h : upTo? ']' text with
    | none => ([], '[' :: text)
    | some (body, rest) =>
      let later := readClauses rest
      (body :: later.1, later.2)
  | text => ([], text)
termination_by text => text.length
decreasing_by
  all_goals
    have := length_lt_of_upTo? _h
    simp only [List.length_cons]
    omega

/-- A parenthesis, a body that is not empty, and the parenthesis that closes it. -/
def readArgument : List Char → Option (List Char) × List Char
  | '(' :: text =>
    match upTo? ')' text with
    | none => (none, '(' :: text)
    | some ([], _) => (none, '(' :: text)
    | some (body, rest) => (some body, rest)
  | text => (none, text)

/-- A colon, a name that may be empty, and an argument if one follows. -/
def readPseudo : List Char → Option (List Char × Option (List Char)) × List Char
  | ':' :: text =>
    let argument := readArgument (text.dropWhile isPseudoChar)
    (some (text.takeWhile isPseudoChar, argument.1), argument.2)
  | text => (none, text)

/-- The mark of a child. -/
def readChild : List Char → Bool × List Char
  | '>' :: text => (true, text)
  | text => (false, text)

/-- Cut the parts of one segment off the front of a text. -/
def Parts.read (text : List Char) : Parts × List Char :=
  let id := readId (text.dropWhile isTagChar)
  let classes := readClasses id.2
  let clauses := readClauses classes.2
  let pseudo := readPseudo clauses.2
  let child := readChild (trimStart pseudo.2)
  ({ tag := text.takeWhile isTagChar
     id := id.1
     classes := classes.1
     clauses := clauses.1
     pseudo := pseudo.1
     blank := pseudo.2.takeWhile isWhiteSpace
     child := child.1 }, child.2)

/-! ## Nothing is lost -/

/-- A marked run and the rest make up the text. -/
theorem markedText_append_rest (mark : Char) (fits : Char → Bool) (text : List Char) :
    markedText mark (readMarked mark fits text).1 ++ (readMarked mark fits text).2 = text := by
  unfold readMarked
  split
  · rfl
  · split
    · next h =>
      split
      · rfl
      · simp [markedText, h, List.takeWhile_append_dropWhile]
    · rfl

/-- The clauses and the rest make up the text. -/
theorem clauseText_append_rest (text : List Char) :
    (readClauses text).1.flatMap clauseText ++ (readClauses text).2 = text := by
  fun_induction readClauses text with
  | case1 => rfl
  | case2 text body rest h later ih =>
    obtain ⟨rfl, _⟩ := upTo?_eq_some_iff.mp h
    simpa [clauseText] using ih
  | case3 => rfl

/-- An argument and the rest make up the text. -/
theorem argumentText_append_rest (text : List Char) :
    argumentText (readArgument text).1 ++ (readArgument text).2 = text := by
  unfold readArgument
  split
  · split
    · rfl
    · rfl
    · next body rest _ h =>
      obtain ⟨rfl, _⟩ := upTo?_eq_some_iff.mp h
      simp [argumentText]
  · rfl

/-- A pseudo-class and the rest make up the text. -/
theorem pseudoText_append_rest (text : List Char) :
    pseudoText (readPseudo text).1 ++ (readPseudo text).2 = text := by
  unfold readPseudo
  split
  · simp [pseudoText, List.append_assoc, argumentText_append_rest,
      List.takeWhile_append_dropWhile]
  · rfl

/-- The mark of a child and the rest make up the text. -/
theorem childText_append_rest (text : List Char) :
    childText (readChild text).1 ++ (readChild text).2 = text := by
  unfold readChild
  split <;> rfl

/-- The parts and the rest make up the text. -/
theorem Parts.text_append_rest (text : List Char) :
    (Parts.read text).1.text ++ (Parts.read text).2 = text := by
  simp only [Parts.read, Parts.text, readId, readClasses, List.append_assoc,
    childText_append_rest, takeWhile_append_trimStart, pseudoText_append_rest,
    clauseText_append_rest, markedText_append_rest, List.takeWhile_append_dropWhile]

/-- A segment that has any text leaves less than it was given. -/
theorem Parts.length_rest_lt {text : List Char} (h : (Parts.read text).1.text ≠ []) :
    (Parts.read text).2.length < text.length := by
  have hlen := congrArg List.length (Parts.text_append_rest text)
  have hpos := List.length_pos_iff.mpr h
  simp only [List.length_append] at hlen
  omega

/-! ## What the parts mean -/

/-- The names in a run of classes; two dots in a row enclose no name. -/
def classNames (run : List Char) : List String :=
  ((run.splitOn '.').filter (fun name ↦ !name.isEmpty)).map String.ofList

/-- The attribute that a clause asks for: the name before the first `=` and the value between it
and the next one. A value without text asks for the presence of the attribute only, and a clause
without text asks for nothing. -/
def attribute? (clause : List Char) : Option (String × Option String) :=
  let value := ((clause.dropWhile (· != '=')).drop 1).takeWhile (· != '=')
  if clause.isEmpty then none
  else some (String.ofList (clause.takeWhile (· != '=')),
    if value.isEmpty then none else some (String.ofList value))

/-- A pseudo-class with a name. A colon alone names none. -/
def pseudoClass? : List Char × Option (List Char) → Option PseudoClass
  | ([], _) => none
  | (name, argument) => some ⟨String.ofList name, argument.map String.ofList⟩

/-- The segment that the parts describe. -/
def Parts.segment (parts : Parts) : Segment where
  selector := String.ofList parts.text
  tag := if parts.tag.isEmpty then universalTag else String.ofList parts.tag
  id := parts.id.map String.ofList
  classes := (parts.classes.map classNames).getD []
  attributes := OrderedMap.ofList (parts.clauses.filterMap attribute?)
  pseudo := parts.pseudo.bind pseudoClass?
  child := parts.child

end SelectorCompiler
