import Mathlib.Data.Finset.Union
import Mathlib.Data.Rat.Floor
import SelectorCompiler.Proofs.Document
import SelectorCompiler.Proofs.Text.Words
import SelectorCompiler.Selector.NthChild
import SelectorCompiler.XPath.Path

/-!
# Evaluation of location paths

The meaning of paths by the rules of XPath 1.0. An expression has a value of one of four types, and
the operators convert between them. A predicate that is a number asks for the position; any other
one is converted to a truth value. A step goes from each of the nodes found so far to children: of
the node itself, or of the node and all nodes below it. The children of one parent that pass the
name test are numbered from one, and the predicate keeps some of them.

Numbers are exact. `Step.mem_select_iff` says which elements one step finds.
-/

namespace SelectorCompiler.XPath

/-! ## Values -/

/-- The value of an expression. -/
inductive Value where
  /-- A set of nodes, as their texts in document order. -/
  | nodes (texts : List String)
  /-- A truth value. -/
  | truth (value : Bool)
  /-- A number; `none` is not a number. -/
  | number (value : Option ℚ)
  /-- A string. -/
  | text (value : String)

/-- Read a number without a sign: digits, with an optional point before, among or after them. -/
def readUnsigned (text : List Char) : Option ℚ :=
  let whole := text.takeWhile Char.isDigit
  let tail := NthArgument.fraction (text.dropWhile Char.isDigit)
  if tail.2.isEmpty && !(whole.isEmpty && tail.1.isEmpty) then
    some ((Nat.ofDigitChars 10 (whole ++ tail.1) 0 : ℚ) / 10 ^ tail.1.length)
  else none

/-- Read a number with an optional minus sign, spaces aside. -/
def readNumber (text : List Char) : Option ℚ :=
  match (text.dropWhile Text.isSpace).rdropWhile Text.isSpace with
  | '-' :: unsigned => (readUnsigned unsigned).map (- ·)
  | unsigned => readUnsigned unsigned

/-- Write a number in decimal notation. The numbers of a predicate have finitely many places. -/
def writeNumber : Option ℚ → String
  | none => "NaN"
  | some value =>
    let places := ((List.range value.den).find? fun k ↦ 10 ^ k % value.den = 0).getD 0
    let digits := Nat.toDigits 10 (value.num.natAbs * 10 ^ places / value.den)
    let padded := List.replicate (places + 1 - digits.length) '0' ++ digits
    let whole := padded.take (padded.length - places)
    let fraction := if places = 0 then [] else '.' :: padded.drop (padded.length - places)
    String.ofList ((if value < 0 then ['-'] else []) ++ whole ++ fraction)

namespace Value

/-- Conversion to a truth value. -/
def toTruth : Value → Bool
  | nodes texts => !texts.isEmpty
  | truth value => value
  | number value => value.any (· ≠ 0)
  | text value => value ≠ ""

/-- Conversion to a string. A set of nodes gives the text of its first node. -/
def toText : Value → String
  | nodes texts => texts.headD ""
  | truth value => if value then "true" else "false"
  | number value => writeNumber value
  | text value => value

/-- Conversion to a number. -/
def toNumber : Value → Option ℚ
  | nodes texts => readNumber (texts.headD "").toList
  | truth value => some (if value then 1 else 0)
  | number value => value
  | text value => readNumber value.toList

/-- The values that a comparison tries: the text of each node of a set, or the value itself. -/
def candidates : Value → List Value
  | nodes texts => texts.map text
  | value => [value]

/-- Two numbers are equal. What is not a number equals nothing. -/
def sameNumber : Option ℚ → Option ℚ → Bool
  | some left, some right => left = right
  | _, _ => false

/-- Equality of two values of which none is a set of nodes: of truth values if one is a truth value,
else of numbers if one is a number, else of strings. -/
def same : Value → Value → Bool
  | truth left, right => left == right.toTruth
  | left, truth right => left.toTruth == right
  | number left, right => sameNumber left right.toNumber
  | left, number right => sameNumber left.toNumber right
  | left, right => left.toText == right.toText

/-- Equality. A set of nodes is compared with a truth value as a whole, and with any other value
node by node. -/
def equal : Value → Value → Bool
  | nodes texts, truth right => (nodes texts).toTruth == right
  | truth left, nodes texts => left == (nodes texts).toTruth
  | left, right => left.candidates.any fun x ↦ right.candidates.any fun y ↦ x.same y

/-- The left number is at least the right one. -/
def numberAtLeast : Option ℚ → Option ℚ → Bool
  | some left, some right => right ≤ left
  | _, _ => false

/-- The left value is at least the right one, as numbers. -/
def atLeast : Value → Value → Bool
  | nodes texts, truth right =>
    numberAtLeast (truth (nodes texts).toTruth).toNumber (truth right).toNumber
  | truth left, nodes texts =>
    numberAtLeast (truth left).toNumber (truth (nodes texts).toTruth).toNumber
  | left, right =>
    left.candidates.any fun x ↦ right.candidates.any fun y ↦ numberAtLeast x.toNumber y.toNumber

/-- The predicate with this value holds at this position. -/
def holdsAt (position : Nat) : Value → Bool
  | number value => sameNumber value (some position)
  | value => value.toTruth

end Value

/-! ## Expressions -/

/-- What an expression is evaluated for: an element, its position and the number of positions. -/
structure Context where
  /-- The element. -/
  element : Element
  /-- Its position among the elements that its step found, from one on. -/
  position : Nat
  /-- The number of these elements. -/
  size : Nat

/-- The remainder of a division that is rounded toward zero. Nothing is divided by zero. -/
def remainder (left right : ℚ) : Option ℚ :=
  if right = 0 then none
  else
    let quotient := left / right
    some (left - right * (if 0 ≤ quotient then quotient.floor else quotient.ceil))

/-- The name that stands for any. -/
def anyName : String := "*"

/-- The values of the attributes that a name stands for. -/
def attributeTexts (element : Element) (name : String) : List String :=
  if name = anyName then element.attributes.entries.map Prod.snd
  else (element.attributes.get? name).toList

/-- The value of an expression. -/
def Expr.eval (context : Context) : Expr → Value
  | .literal _ text => .text text
  | .numeral text => .number (readNumber text.toList)
  | .attribute name => .nodes (attributeTexts context.element name)
  | .position => .number (some context.position)
  | .last => .number (some context.size)
  | .normalizeSpace text =>
    .text (String.ofList (Text.normalizeSpaces (text.eval context).toText.toList))
  | .concat first second third =>
    .text ((first.eval context).toText ++ (second.eval context).toText ++
      (third.eval context).toText)
  | .contains text part =>
    .truth (decide ((part.eval context).toText.toList <:+: (text.eval context).toText.toList))
  | .minus left right =>
    .number ((left.eval context).toNumber.bind fun x ↦
      (right.eval context).toNumber.map fun y ↦ x - y)
  | .modulo left right =>
    .number ((left.eval context).toNumber.bind fun x ↦
      (right.eval context).toNumber.bind fun y ↦ remainder x y)
  | .equal left right => .truth ((left.eval context).equal (right.eval context))
  | .atLeast left right => .truth ((left.eval context).atLeast (right.eval context))
  | .both left right => .truth ((left.eval context).toTruth && (right.eval context).toTruth)
  | .group inner => inner.eval context

/-! ## Conditions on attributes, and conditions joined -/

namespace Expr

theorem eval_attribute (context : Context) {name : String} (hname : name ≠ anyName) :
    (Expr.attribute name).eval context = .nodes (context.element.attributes.get? name).toList := by
  rw [eval, attributeTexts, if_neg hname]

theorem eval_attribute_equal (context : Context) {name : String} (hname : name ≠ anyName)
    (quote : Quote) (text : String) :
    (Expr.equal (.attribute name) (.literal quote text)).eval context =
      .truth (decide (context.element.attributes.get? name = some text)) := by
  rw [eval, eval_attribute context hname, eval]
  cases context.element.attributes.get? name with
  | none => rfl
  | some value =>
    simp [Value.equal, Value.candidates, Value.same, Value.toText, Bool.beq_eq_decide_eq]

/-- The expression is no number, so that its place does not matter. -/
def IsTest (context : Context) (condition : Expr) : Prop :=
  ∀ number, condition.eval context ≠ .number number

private theorem toTruth_foldl_both (context : Context) (first : Expr) (rest : List Expr) :
    ((rest.foldl (fun joined next ↦ both joined (.group next)) first).eval context).toTruth =
      ((first.eval context).toTruth && rest.all fun next ↦ (next.eval context).toTruth) := by
  induction rest generalizing first with
  | nil => rw [List.foldl_nil, List.all_nil, Bool.and_true]
  | cons next rest ih =>
    rw [List.foldl_cons, ih, List.all_cons, ← Bool.and_assoc]
    rfl

private theorem exists_truth_foldl_both (context : Context) (first : Expr) {rest : List Expr}
    (hrest : rest ≠ []) :
    ∃ value, (rest.foldl (fun joined next ↦ both joined (.group next)) first).eval context =
      .truth value := by
  cases rest using List.reverseRecOn with
  | nil => exact absurd rfl hrest
  | append_singleton front final =>
    rw [List.foldl_append]
    exact ⟨_, rfl⟩

/-- Several conditions joined have the truth value of all of them together. -/
theorem eval_conjunction (context : Context) (first second : Expr) (rest : List Expr) :
    ∃ joined, conjunction? (first :: second :: rest) = some joined ∧
      joined.eval context =
        .truth ((first :: second :: rest).all fun next ↦ (next.eval context).toTruth) := by
  refine ⟨_, rfl, ?_⟩
  have htruth := toTruth_foldl_both context (.group first) (second :: rest)
  rcases exists_truth_foldl_both context (.group first) (List.cons_ne_nil second rest) with
    ⟨value, hvalue⟩
  rw [hvalue] at htruth ⊢
  rw [List.all_cons]
  exact congrArg Value.truth htruth

/-- The predicate of several conditions holds when all of them do, at any position. -/
theorem holdsAt_conjunction_of_several (context : Context) {conditions : List Expr}
    (hseveral : 2 ≤ conditions.length) (position : Nat) :
    ((conjunction? conditions).all fun joined ↦ (joined.eval context).holdsAt position) =
      conditions.all fun condition ↦ (condition.eval context).toTruth := by
  match conditions with
  | [] => simp at hseveral
  | [condition] => simp at hseveral
  | first :: second :: rest =>
    rcases eval_conjunction context first second rest with ⟨joined, hjoined, hvalue⟩
    rw [hjoined, Option.all_some, hvalue]
    rfl

/-- A predicate that is no number is a test, at any position. -/
theorem IsTest.holdsAt_eq {context : Context} {condition : Expr} (h : condition.IsTest context)
    (position : Nat) :
    (condition.eval context).holdsAt position = (condition.eval context).toTruth := by
  cases hvalue : condition.eval context with
  | number number => exact absurd hvalue (h number)
  | nodes texts => rfl
  | truth value => rfl
  | text value => rfl

/-- The predicate of conditions none of which is a number holds when all of them do. -/
theorem holdsAt_conjunction {context : Context} {conditions : List Expr} (position : Nat)
    (htests : ∀ condition ∈ conditions, condition.IsTest context) :
    ((conjunction? conditions).all fun joined ↦ (joined.eval context).holdsAt position) =
      conditions.all fun condition ↦ (condition.eval context).toTruth := by
  match conditions with
  | [] => rfl
  | [condition] =>
    have htest := htests condition List.mem_cons_self
    rw [conjunction?, Option.all_some, htest.holdsAt_eq, List.all_cons, List.all_nil,
      Bool.and_true]
  | first :: second :: rest => exact holdsAt_conjunction_of_several context (by simp) position

end Expr

/-! ## Steps and paths -/

/-- The nodes whose children a step looks at, for one node found so far. -/
def Axis.parents (axis : Axis) (document : Document) (node : Address) : List Address :=
  match axis with
  | .child => [node]
  | .descendant => document.nodesFrom node

namespace Step

/-- The name test of a step. -/
def namesElement (step : Step) (element : Element) : Bool :=
  step.name = anyName || step.name = element.name

/-- The context of the element at `place` among its siblings, those with another name aside. -/
def context (step : Step) (siblings : List Element) (place : Nat) (element : Element) : Context :=
  ⟨element, (siblings.take place).countP step.namesElement + 1, siblings.countP step.namesElement⟩

/-- The step keeps the element at `place` among its siblings. -/
def keeps (step : Step) (siblings : List Element) (place : Nat) (element : Element) : Bool :=
  let context := step.context siblings place element
  step.namesElement element &&
    step.predicate.all fun predicate ↦ (predicate.eval context).holdsAt context.position

/-- The children of a node that the step keeps. -/
def kept (step : Step) (document : Document) (parent : Address) : List Address :=
  let siblings := document.children parent
  (siblings.zipIdx.filter fun entry ↦ step.keeps siblings entry.2 entry.1).map
    fun entry ↦ entry.2 :: parent

/-- The nodes that a step finds from the nodes found so far. -/
def select (step : Step) (document : Document) (origins : Finset Address) : Finset Address :=
  origins.biUnion fun origin ↦
    ((step.axis.parents document origin).flatMap (step.kept document)).toFinset

end Step

/-- The nodes that a path finds, step by step. -/
def Path.select (path : Path) (document : Document) (origins : Finset Address) : Finset Address :=
  path.foldl (fun found step ↦ step.select document found) origins

/-! ## What a step finds -/

/-- The axis leads from one node to another. -/
def Axis.Leads (axis : Axis) (origin node : Address) : Prop :=
  match axis with
  | .child => origin = node.parent
  | .descendant => Address.IsAncestor origin node

private theorem Axis.parent_mem_parents_iff {axis : Axis} {document : Document}
    {origin node : Address} {element : Element} (helement : document.element? node = some element) :
    node.parent ∈ axis.parents document origin ↔ axis.Leads origin node := by
  cases axis with
  | child =>
    rw [parents, List.mem_singleton]
    exact eq_comm
  | descendant => exact Document.parent_mem_nodesFrom_iff helement

private theorem Step.mem_kept_iff {step : Step} {document : Document} {parent node : Address} :
    node ∈ step.kept document parent ↔
      node.parent = parent ∧ ∃ element, document.element? node = some element ∧
        step.keeps (document.children node.parent) node.place element = true := by
  simp only [kept, List.mem_map, List.mem_filter, List.mem_zipIdx_iff_getElem?]
  constructor
  · rintro ⟨⟨element, place⟩, ⟨helement, hkeeps⟩, rfl⟩
    exact ⟨rfl, element, helement, hkeeps⟩
  · rintro ⟨rfl, element, helement, hkeeps⟩
    cases node with
    | nil => cases helement
    | cons place parent => exact ⟨(element, place), ⟨helement, hkeeps⟩, rfl⟩

/-- A step finds the elements that it keeps and that its axis leads to from a node found before. -/
theorem Step.mem_select_iff {step : Step} {document : Document} {origins : Finset Address}
    {node : Address} :
    node ∈ step.select document origins ↔
      ∃ element, document.element? node = some element ∧
        step.keeps (document.children node.parent) node.place element = true ∧
        ∃ origin ∈ origins, step.axis.Leads origin node := by
  simp only [select, Finset.mem_biUnion, List.mem_toFinset, List.mem_flatMap, mem_kept_iff]
  constructor
  · rintro ⟨origin, horigin, parent, hparent, rfl, element, helement, hkeeps⟩
    rw [Axis.parent_mem_parents_iff helement] at hparent
    exact ⟨element, helement, hkeeps, origin, horigin, hparent⟩
  · rintro ⟨element, helement, hkeeps, origin, horigin, hleads⟩
    rw [← Axis.parent_mem_parents_iff helement] at hleads
    exact ⟨origin, horigin, node.parent, hleads, rfl, element, helement, hkeeps⟩

/-- A path that ends with one more step finds what this step finds from the nodes of the rest. -/
theorem Path.select_concat (path : Path) (step : Step) (document : Document)
    (origins : Finset Address) :
    Path.select (path ++ [step]) document origins =
      step.select document (path.select document origins) := by
  rw [select, List.foldl_append]
  rfl

end SelectorCompiler.XPath
