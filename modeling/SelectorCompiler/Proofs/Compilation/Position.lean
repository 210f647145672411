import SelectorCompiler.Compilation.Path
import SelectorCompiler.Proofs.Compilation.Conditions

/-!
# Positions in a predicate

A number that is a whole predicate asks for the position. Joined to other conditions it is converted
to a truth value first, and then it asks for nothing: `(1)` and `(last())` are true at every
position. The predicates of `:nth-child` are comparisons and mean the same in both places, but
`:first-child` and `:last-child` are numbers, so they have an effect only where a segment has no
other condition.
-/

namespace SelectorCompiler

open Text XPath

/-! ## Predicates of pseudo-classes -/

/-- The predicate of `:nth-child` is a test. -/
theorem NthArgument.isTest_predicate (argument : NthArgument) (context : Context) :
    argument.predicate.IsTest context := by
  intro number
  cases argument <;> exact Value.noConfusion

/-- The text of a test for one place. -/
theorem NthArgument.render_index (numeral : String) :
    (NthArgument.index numeral).predicate.render = "position() = " ++ numeral := by
  rw [← String.toList_inj]
  change ("position()" ++ " = " ++ numeral).toList = _
  simp

/-- The text of a test for the places of a formula. -/
theorem NthArgument.render_every (step offset : String) :
    (predicate.every step offset).render =
      "(position() -" ++ offset ++ ") mod " ++ step ++ " = 0 and position() >= " ++ offset := by
  rw [← String.toList_inj]
  change ("(" ++ ("position()" ++ " -" ++ offset) ++ ")" ++ " mod " ++ step ++ " = " ++ "0" ++
    " and " ++ ("position()" ++ " >= " ++ offset)).toList = _
  simp

/-- A pseudo-class that has a predicate is one of three. -/
theorem PseudoClass.predicate_eq_ok {pseudo : PseudoClass} {place : Expr}
    (h : pseudo.predicate = .ok place) :
    pseudo.name = "first-child" ∧ place = .numeral "1" ∨
      pseudo.name = "last-child" ∧ place = .last ∨
      pseudo.name = "nth-child" ∧ ∃ argument,
        NthArgument.ofText? (pseudo.expression.getD "") = some argument ∧
          place = argument.predicate := by
  unfold predicate pseudoPredicate at h
  by_cases hfirst : pseudo.name = "first-child"
  · rw [if_pos hfirst] at h
    cases h
    exact .inl ⟨hfirst, rfl⟩
  · rw [if_neg hfirst] at h
    by_cases hlast : pseudo.name = "last-child"
    · rw [if_pos hlast] at h
      cases h
      exact .inr (.inl ⟨hlast, rfl⟩)
    · rw [if_neg hlast] at h
      by_cases hnth : pseudo.name = "nth-child"
      · rw [if_pos hnth] at h
        cases hargument : NthArgument.ofText? (pseudo.expression.getD "") with
        | none => simp [hargument] at h
        | some argument =>
          simp only [hargument, Option.map_some] at h
          cases h
          exact .inr (.inr ⟨hnth, argument, rfl, rfl⟩)
      · simp [hnth] at h

/-- The pseudo-class asks for a position by a number. -/
def PseudoClass.IsNumeral (pseudo : PseudoClass) : Prop :=
  pseudo.name = "first-child" ∨ pseudo.name = "last-child"

private theorem toTruth_numeral_one (context : Context) :
    ((Expr.numeral "1").eval context).toTruth = true := by
  have hone : readNumber "1".toList = some 1 := by decide +kernel
  rw [Expr.eval, hone]
  decide +kernel

private theorem toTruth_last {context : Context} (hsize : 0 < context.size) :
    (Expr.last.eval context).toTruth = true := by
  have hne : context.size ≠ 0 := Nat.pos_iff_ne_zero.mp hsize
  simp [Expr.eval, Value.toTruth, hne]

/-- As a truth value, a number holds at every position, and any other predicate where it holds
alone. -/
theorem PseudoClass.toTruth_predicate_iff {pseudo : PseudoClass} {place : Expr}
    (h : pseudo.predicate = .ok place) {context : Context} (hsize : 0 < context.size) :
    (place.eval context).toTruth = true ↔
      pseudo.IsNumeral ∨ (place.eval context).holdsAt context.position = true := by
  rcases predicate_eq_ok h with ⟨hname, rfl⟩ | ⟨hname, rfl⟩ | ⟨hname, argument, _, rfl⟩
  · exact ⟨fun _ ↦ .inl (.inl hname), fun _ ↦ toTruth_numeral_one context⟩
  · exact ⟨fun _ ↦ .inl (.inr hname), fun _ ↦ toTruth_last hsize⟩
  · rw [(argument.isTest_predicate context).holdsAt_eq]
    have hother : ¬pseudo.IsNumeral := by simp [IsNumeral, hname]
    simp [hother]

/-! ## Predicates of segments -/

/-- The predicate of the step, if it has one, holds in the context. -/
def XPath.Step.admits (step : Step) (context : Context) : Bool :=
  step.predicate.all fun predicate ↦ (predicate.eval context).holdsAt context.position

/-- The element satisfies the tests for the id, the attributes and the classes. -/
def Segment.TestsHold (segment : Segment) (context : Context) : Prop :=
  ∀ condition ∈ segment.elementConditions, (condition.eval context).toTruth = true

/-- The predicate of the pseudo-class, alone in its brackets, holds. -/
def PseudoClass.HoldsAlone (pseudo : PseudoClass) (context : Context) : Prop :=
  ∃ place, pseudo.predicate = .ok place ∧
    (place.eval context).holdsAt context.position = true

namespace Segment

variable {segment : Segment} {axis : Axis} {step : Step}

/-- The predicate of a segment without a pseudo-class is the conjunction of its tests. -/
private theorem admits_step_of_none (h : segment.step axis = .ok step)
    (hpseudo : segment.pseudo = none) (context : Context) :
    step.admits context = true ↔ segment.TestsHold context := by
  rw [Segment.step, conditions, hpseudo] at h
  cases h
  rw [Step.admits, Expr.holdsAt_conjunction _ fun _ hmem ↦
    isTest_of_mem_elementConditions context hmem]
  exact List.all_eq_true

/-- A pseudo-class without other conditions stands alone, and any other one is converted to a truth
value. -/
private theorem admits_step_of_some {pseudo : PseudoClass} {place : Expr}
    (h : segment.step axis = .ok step) (hpseudo : segment.pseudo = some pseudo)
    (hplace : pseudo.predicate = .ok place) (context : Context) :
    step.admits context = true ↔ segment.TestsHold context ∧
      if segment.elementConditions = [] then
        (place.eval context).holdsAt context.position = true
      else (place.eval context).toTruth = true := by
  simp only [Segment.step, conditions, hpseudo, hplace] at h
  cases h
  rw [Step.admits, TestsHold]
  split
  · next hnil =>
    rw [hnil]
    simp [Expr.conjunction?]
  · next hne =>
    have hlength := List.length_pos_iff.mpr hne
    have hseveral : 2 ≤ (segment.elementConditions ++ [place]).length := by
      rw [List.length_append, List.length_singleton]
      omega
    rw [Expr.holdsAt_conjunction_of_several context hseveral, List.all_append, Bool.and_eq_true,
      List.all_eq_true]
    simp

/-- The predicate of a segment holds exactly when the tests for the element hold and the
pseudo-class holds alone, but `:first-child` and `:last-child` ask for nothing when there are other
tests. -/
theorem admits_step_iff (h : segment.step axis = .ok step) {context : Context}
    (hsize : 0 < context.size) :
    step.admits context = true ↔
      segment.TestsHold context ∧ ∀ pseudo ∈ segment.pseudo,
        segment.elementConditions ≠ [] ∧ pseudo.IsNumeral ∨ pseudo.HoldsAlone context := by
  cases hpseudo : segment.pseudo with
  | none => simp [admits_step_of_none h hpseudo]
  | some pseudo =>
    cases hplace : pseudo.predicate with
    | error error =>
      simp only [Segment.step, conditions, hpseudo, hplace] at h
      cases h
    | ok place =>
      have halone : pseudo.HoldsAlone context ↔
          (place.eval context).holdsAt context.position = true := by
        simp [PseudoClass.HoldsAlone, hplace]
      rw [admits_step_of_some h hpseudo hplace]
      by_cases hnil : segment.elementConditions = []
      · simp [hnil, halone]
      · simp [hnil, halone, PseudoClass.toTruth_predicate_iff hplace hsize]

/-- Next to a class, the predicate for the last item finds the first of three. -/
theorem admits_step_iff_of_items :
    let segment : Segment := ⟨"li.item:last-child", "li", none, ["item"], .empty,
      some ⟨"last-child", none⟩, false⟩
    let item : Element := .mk "li" (.ofList [("class", "item")]) []
    segment.step .child = .ok ⟨.child, "li",
        some (.both (.group (classPredicate "item")) (.group .last))⟩ ∧
      segment.TestsHold ⟨item, 1, 3⟩ ∧
      Step.admits ⟨.child, "li", some (.both (.group (classPredicate "item")) (.group .last))⟩
        ⟨item, 1, 3⟩ = true := by
  intro segment item
  have hstep : segment.step .child = .ok ⟨.child, "li",
      some (.both (.group (classPredicate "item")) (.group .last))⟩ := rfl
  have htests : segment.TestsHold ⟨item, 1, 3⟩ := by
    intro condition hmem
    rw [List.mem_singleton.mp hmem]
    decide +kernel
  refine ⟨hstep, htests, (admits_step_iff hstep (by decide)).mpr ⟨htests, ?_⟩⟩
  intro pseudo hpseudo
  cases hpseudo
  exact .inl ⟨by decide, .inr rfl⟩

/-- The second of two items is found by the predicate for the first one: the number that
`:first-child` stands for does not hold there alone, and it holds next to a class. -/
theorem admits_first_item_at_second_place :
    let segment : Segment := ⟨"li.item:first-child", "li", none, ["item"], .empty,
      some ⟨"first-child", none⟩, false⟩
    let second : Context := ⟨.mk "li" (.ofList [("class", "item")]) [], 2, 2⟩
    Segment.readAll "li.item:first-child" = .ok [segment] ∧
      ∃ step, segment.step .descendant = .ok step ∧
        step.render = "//li[(contains(concat(\" \", normalize-space(@class), \" \"), " ++
          "\" item \")) and (1)]" ∧
        ¬(step.admits second = true ↔
          segment.TestsHold second ∧ ∀ pseudo ∈ segment.pseudo, pseudo.HoldsAlone second) := by
  intro segment second
  have hread : Segment.readAll "li.item:first-child" = .ok [segment] := by decide +kernel
  refine ⟨hread, _, rfl, by decide +kernel, ?_⟩
  intro hlaw
  have hadmits : Step.admits ⟨.descendant, "li",
      some (.both (.group (classPredicate "item")) (.group (.numeral "1")))⟩ second = true := by
    decide +kernel
  obtain ⟨place, hplace, halone⟩ := (hlaw.mp hadmits).2 ⟨"first-child", none⟩ rfl
  cases hplace
  exact absurd halone (by decide +kernel)

end Segment

end SelectorCompiler
