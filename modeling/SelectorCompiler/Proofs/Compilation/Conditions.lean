import SelectorCompiler.Compilation.Predicate
import SelectorCompiler.Proofs.Selector.Reading
import SelectorCompiler.Proofs.XPath.Evaluation

/-!
# The conditions of a segment

What a segment asks of an element is said here without XPath: `Segment.Fits` is about the id, the
attributes and the classes. The predicates of a segment then hold of an element exactly when it
fits. Several conditions joined hold when each of them, converted to a truth value, holds; a single
one stands for itself, which differs for numbers.
-/

namespace SelectorCompiler

open Text XPath

/-! ## What a segment asks of an element -/

/-- The words of the `class` attribute. -/
def Element.classes (element : Element) : List (List Char) :=
  words ((element.attributes.get? "class").getD "").toList

namespace Segment

/-- The element satisfies the id, the attributes and the classes of the segment. -/
structure Fits (segment : Segment) (element : Element) : Prop where
  /-- The `id` attribute has the value that the segment names. -/
  id : ∀ id, segment.id = some id → element.attributes.get? "id" = some id
  /-- Each attribute is there, with its value if the segment names one. -/
  attributes : ∀ name required, (name, required) ∈ segment.attributes.entries →
    ∃ value, element.attributes.get? name = some value ∧ ∀ text, required = some text → value = text
  /-- Each class is a word of the `class` attribute. -/
  classes : ∀ name ∈ segment.classes, name.toList ∈ element.classes

/-- The classes are words. -/
def ClassesAreWords (segment : Segment) : Prop :=
  ∀ name ∈ segment.classes, name.toList ≠ [] ∧ ∀ c ∈ name.toList, isSpace c = false

end Segment

theorem isSpace_of_isClassChar {c : Char} (h : isClassChar c = true) :
    isSpace c = false := by
  by_contra hspace
  rw [Bool.not_eq_false, isSpace] at hspace
  simp only [Bool.or_eq_true, beq_iff_eq] at hspace
  rcases hspace with ((rfl | rfl) | rfl) | rfl <;> exact absurd h (by decide)

/-- The classes of a segment that was read are words. -/
theorem Reading.classesAreWords_of_mem {text : List Char} {segment : Segment}
    (h : segment ∈ (Reading.ofChars text).segments) : segment.ClassesAreWords := by
  rcases Reading.exists_parts_of_mem h with ⟨parts, hvalid, rfl⟩
  intro name hname
  cases hrun : parts.classes with
  | none =>
    rw [Parts.segment, hrun] at hname
    cases hname
  | some run =>
    rw [Parts.segment, hrun] at hname
    rcases List.mem_map.mp hname with ⟨piece, hpiece, rfl⟩
    rw [List.mem_filter] at hpiece
    rw [String.toList_ofList]
    refine ⟨by simpa using hpiece.2, ?_⟩
    intro c hc
    have hmem : c ∈ '.' :: run := by
      rw [← flatMap_splitOn]
      apply List.mem_flatMap.mpr
      exact ⟨piece, hpiece.1, List.mem_cons_of_mem _ hc⟩
    apply isSpace_of_isClassChar
    rcases List.mem_cons.mp hmem with heq | hrun'
    · rw [heq]
      rfl
    · exact (hvalid.classes run hrun).2 c hrun'

/-! ## The tests for one condition -/

section Tests

variable (context : Context)

/-- The test for an attribute holds when the attribute is there with the value asked for. -/
theorem eval_attributePredicate_iff {name : String} (hname : name ≠ anyName)
    (required : Option String) :
    ((attributePredicate name required).eval context).toTruth = true ↔
      ∃ value, context.element.attributes.get? name = some value ∧
        ∀ text, required = some text → value = text := by
  cases required with
  | none =>
    rw [attributePredicate, Expr.eval_attribute context hname]
    cases context.element.attributes.get? name with
    | none => simp [Value.toTruth]
    | some value => simp [Value.toTruth]
  | some text =>
    rw [attributePredicate, Expr.eval_attribute_equal context hname]
    simp [Value.toTruth]

/-- The test for a class holds when the class is a word of the `class` attribute. -/
theorem eval_classPredicate {name : String} (hne : name.toList ≠ [])
    (hink : ∀ c ∈ name.toList, isSpace c = false) :
    (classPredicate name).eval context =
      .truth (decide (name.toList ∈ context.element.classes)) := by
  have hclass : ("class" : String) ≠ anyName := by decide
  have htext : ((context.element.attributes.get? "class").toList.headD "") =
      (context.element.attributes.get? "class").getD "" := by
    cases context.element.attributes.get? "class" with
    | none => rfl
    | some value => rfl
  simp only [classPredicate, Expr.eval, attributeTexts, if_neg hclass, Value.toText, htext]
  congr 1
  rw [decide_eq_decide, Element.classes, ← spaced_infix_iff hne hink]
  simp

end Tests

/-! ## All tests together -/

namespace Segment

/-- The conditions of a segment on an element are no numbers. -/
theorem isTest_of_mem_elementConditions {segment : Segment} {condition : Expr} (context : Context)
    (h : condition ∈ segment.elementConditions) : condition.IsTest context := by
  intro number
  simp only [elementConditions, List.mem_append, List.mem_map] at h
  rcases h with (⟨id, _, rfl⟩ | ⟨⟨name, required⟩, _, rfl⟩) | ⟨name, _, rfl⟩
  · exact Value.noConfusion
  · cases required with
    | none => exact Value.noConfusion
    | some value => exact Value.noConfusion
  · exact Value.noConfusion

/-- The conditions of a segment on an element hold exactly when the element fits. -/
theorem elementConditions_hold_iff {segment : Segment} (context : Context)
    (hnames : anyName ∉ segment.attributes.keys) (hclasses : segment.ClassesAreWords) :
    (segment.elementConditions.all fun condition ↦ (condition.eval context).toTruth) = true ↔
      segment.Fits context.element := by
  have hid (id : String) :
      ((Expr.equal (.attribute "id") (.literal .single id)).eval context).toTruth = true ↔
        context.element.attributes.get? "id" = some id := by
    rw [Expr.eval_attribute_equal context (by decide)]
    exact decide_eq_true_iff
  have hname {name : String} {required : Option String}
      (hmem : (name, required) ∈ segment.attributes.entries) : name ≠ anyName := by
    rintro rfl
    apply hnames
    apply List.mem_map.mpr
    exact ⟨_, hmem, rfl⟩
  have hclass (name : String) (hmem : name ∈ segment.classes) :
      ((classPredicate name).eval context).toTruth = true ↔
        name.toList ∈ context.element.classes := by
    rw [eval_classPredicate context (hclasses name hmem).1 (hclasses name hmem).2]
    exact decide_eq_true_iff
  simp only [elementConditions, List.all_append, List.all_map, Bool.and_eq_true, List.all_eq_true,
    Function.comp_apply, Option.mem_toList, Prod.forall]
  constructor
  · rintro ⟨⟨hids, hattributes⟩, hwords⟩
    constructor
    · intro id hmem
      apply (hid id).mp
      exact hids id hmem
    · intro name required hmem
      apply (eval_attributePredicate_iff context (hname hmem) required).mp
      exact hattributes name required hmem
    · intro name hmem
      apply (hclass name hmem).mp
      exact hwords name hmem
  · rintro ⟨hids, hattributes, hwords⟩
    refine ⟨⟨?_, ?_⟩, ?_⟩
    · intro id hmem
      apply (hid id).mpr
      exact hids id hmem
    · intro name required hmem
      apply (eval_attributePredicate_iff context (hname hmem) required).mpr
      exact hattributes name required hmem
    · intro name hmem
      apply (hclass name hmem).mpr
      exact hwords name hmem

/-- The predicate that joins the conditions of a segment on an element holds, at any position,
exactly when the element fits. -/
theorem holdsAt_elementConditions_iff {segment : Segment} (context : Context) (position : Nat)
    (hnames : anyName ∉ segment.attributes.keys) (hclasses : segment.ClassesAreWords) :
    ((Expr.conjunction? segment.elementConditions).all fun joined ↦
      (joined.eval context).holdsAt position) = true ↔ segment.Fits context.element := by
  have htests : ∀ condition ∈ segment.elementConditions, condition.IsTest context := by
    intro condition hmem
    exact isTest_of_mem_elementConditions context hmem
  rw [Expr.holdsAt_conjunction position htests, elementConditions_hold_iff context hnames hclasses]

end Segment

end SelectorCompiler
