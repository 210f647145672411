import Mathlib.Tactic.Ring
import Mathlib.Tactic.Zify
import SelectorCompiler.Proofs.Compilation.Position
import SelectorCompiler.Proofs.Selector.Locality
import SelectorCompiler.Proofs.Selector.NthChild

/-!
# Places in a progression

An argument of `:nth-child` stands for the places `step * k + offset`: a formula says both numbers,
a single number is an offset without a step, and `odd` and `even` have the step two. The predicate
of the argument asks for something else, that the place is at least the offset and that the
difference leaves no remainder when it is divided by the step. A remainder has the sign of the
dividend, so places before the offset can leave none; the lower bound keeps them out.

Both say the same unless a formula has the step zero. Then there is nothing to divide by, and the
predicate holds at no place, not even at the offset.
-/

namespace SelectorCompiler

open Text XPath

/-! ## Arguments as progressions -/

namespace NthArgument

/-- The number that digits spell. -/
def spelled (digits : List Char) : Nat := Nat.ofDigitChars 10 digits 0

/-- The text stands for the places `step * k + offset`. -/
inductive Progression : String → Nat → Nat → Prop where
  | odd : Progression "odd" 2 1
  | even : Progression "even" 2 0
  /-- A number stands for one place. -/
  | index {digits : List Char} (h : isDigits digits = true) :
    Progression (String.ofList digits) 0 (spelled digits)
  /-- A formula. -/
  | every {step offset : List Char} {mark : Char} (hmark : mark = 'n' ∨ mark = 'N')
    (hstep : isDigits step = true) (hoffset : isDigits offset = true) :
    Progression (String.ofList (step ++ mark :: '+' :: offset)) (spelled step) (spelled offset)

theorem isTagChar_of_isDigit {c : Char} (h : c.isDigit = true) : isTagChar c = true := by
  simp [isTagChar, Char.isAlphanum, h]

section Digits

variable {digits : List Char} (h : isDigits digits = true)
include h

theorem takeWhile_of_isDigits :
    digits.takeWhile Char.isDigit = digits ∧ digits.dropWhile Char.isDigit = [] := by
  have hall : ∀ c ∈ digits, c.isDigit = true := fun c hc ↦ isDigit_of_isDigits h hc
  exact ⟨List.takeWhile_eq_self_iff.mpr hall, List.dropWhile_eq_nil_iff.mpr hall⟩

/-- Nothing that takes off no digit changes a run of digits. -/
private theorem dropWhile_of_isDigits {fits : Char → Bool}
    (hfits : ∀ c, c.isDigit = true → fits c = false) :
    digits.dropWhile fits = digits ∧ digits.rdropWhile fits = digits := by
  have hnot : ∀ c ∈ digits, ¬fits c = true := by
    intro c hc
    rw [hfits c (isDigit_of_isDigits h hc)]
    exact Bool.false_ne_true
  constructor
  · apply List.dropWhile_eq_self_iff.mpr
    intro hlength
    exact hnot _ (List.getElem_mem hlength)
  · apply List.rdropWhile_eq_self_iff.mpr
    intro hne
    exact hnot _ (List.getLast_mem hne)

private theorem trim_of_isDigits : trim digits = digits := by
  have hfits (c : Char) (hc : c.isDigit = true) : isWhiteSpace c = false :=
    isWhiteSpace_of_isTagChar (isTagChar_of_isDigit hc)
  have hdrop := dropWhile_of_isDigits h hfits
  rw [trim, trimStart, hdrop.1]
  exact hdrop.2

private theorem ne_cons_of_isDigits {c : Char} (hc : c.isDigit = false) (rest : List Char) :
    digits ≠ c :: rest := by
  rintro rfl
  have hdigit := isDigit_of_isDigits h List.mem_cons_self
  rw [hc] at hdigit
  cases hdigit

private theorem dropSign_of_isDigits : dropSign digits = digits := by
  unfold dropSign
  split
  · exact absurd rfl (ne_cons_of_isDigits h (by decide) _)
  · exact absurd rfl (ne_cons_of_isDigits h (by decide) _)
  · rfl

/-- A run of digits is read as a number. -/
theorem ofText?_digits :
    ofText? (String.ofList digits) = some (.index (String.ofList digits)) := by
  have hother {keyword : String} (hkeyword : isDigits keyword.toList = false) :
      String.ofList digits ≠ keyword := by
    rintro rfl
    rw [String.toList_ofList, h] at hkeyword
    cases hkeyword
  have hne : digits ≠ [] := by
    rintro rfl
    cases h
  have hdecimal : isDecimal digits = true := by
    simp [isDecimal, trim_of_isDigits h, dropSign_of_isDigits h, takeWhile_of_isDigits h,
      fraction, isExponentPart, hne]
  rw [ofText?, if_neg (hother (by decide)), if_neg (hother (by decide)), String.toList_ofList,
    if_pos hdecimal]

end Digits

section Formula

variable {step offset : List Char} {mark : Char} (hmark : mark = 'n' ∨ mark = 'N')
  (hstep : isDigits step = true) (hoffset : isDigits offset = true)
include hmark hstep hoffset

/-- The step of a formula ends at its mark, since that is no digit. -/
theorem formula?_runs : formula? (step ++ mark :: '+' :: offset) = some (step, offset) := by
  have hdigits : ∀ c ∈ step, (!(c == 'n' || c == 'N')) = true := by
    intro c hc
    have hdigit := isDigit_of_isDigits hstep hc
    have hn : c ≠ 'n' := by
      rintro rfl
      cases hdigit
    have hN : c ≠ 'N' := by
      rintro rfl
      cases hdigit
    simp [hn, hN]
  have hstop : StopsAt (fun c ↦ !(c == 'n' || c == 'N')) (mark :: '+' :: offset) := by
    rintro c ⟨⟩
    rcases hmark with rfl | rfl <;> rfl
  simp only [formula?, takeWhile_run hdigits hstop, hstep, hoffset, Bool.and_self, if_true]

/-- A formula is read as its two numbers. -/
theorem ofText?_formula :
    ofText? (String.ofList (step ++ mark :: '+' :: offset)) =
      some (.every (String.ofList step) (String.ofList offset)) := by
  have hother {keyword : String} (hkeyword : '+' ∉ keyword.toList) :
      String.ofList (step ++ mark :: '+' :: offset) ≠ keyword := by
    rintro rfl
    simp at hkeyword
  -- The mark of the step is in no number.
  have hdecimal : ¬isDecimal (step ++ mark :: '+' :: offset) = true := by
    intro hdecimal
    have hchar := isArgumentChar_of_isDecimal hdecimal (c := mark) (by simp)
    rcases hmark with rfl | rfl
    · exact absurd hchar (by decide)
    · exact absurd hchar (by decide)
  rw [ofText?, if_neg (hother (by decide)), if_neg (hother (by decide)), String.toList_ofList,
    if_neg hdecimal, formula?_runs hmark hstep hoffset]
  rfl

end Formula

end NthArgument

/-! ## Numbers -/

namespace XPath

/-- Digits are read as the number they spell. -/
theorem readNumber_of_isDigits {digits : List Char} (h : NthArgument.isDigits digits = true) :
    readNumber digits = some (NthArgument.spelled digits : ℚ) := by
  have hspace (c : Char) (hc : c.isDigit = true) : isSpace c = false := by
    by_contra hspace
    rw [Bool.not_eq_false, isSpace] at hspace
    simp only [Bool.or_eq_true, beq_iff_eq] at hspace
    rcases hspace with ((rfl | rfl) | rfl) | rfl <;> cases hc
  have hdrop := NthArgument.dropWhile_of_isDigits h hspace
  have hunsigned : readUnsigned digits = some (NthArgument.spelled digits : ℚ) := by
    have hne : digits ≠ [] := by
      rintro rfl
      cases h
    simp [readUnsigned, NthArgument.takeWhile_of_isDigits h, NthArgument.fraction, hne,
      NthArgument.spelled]
  rw [readNumber, hdrop.1, hdrop.2]
  split
  · exact absurd rfl (NthArgument.ne_cons_of_isDigits h (by decide) _)
  · exact hunsigned

/-- The remainder of whole numbers has the sign of the dividend. -/
theorem remainder_intCast (dividend : ℤ) {divisor : ℕ} (h : divisor ≠ 0) :
    remainder dividend divisor = some (dividend.tmod divisor : ℚ) := by
  have hdivisor : (divisor : ℚ) ≠ 0 := Nat.cast_ne_zero.mpr h
  have hpositive : (0 : ℚ) < divisor := Nat.cast_pos.mpr (Nat.pos_of_ne_zero h)
  have hfloor (number : ℤ) : Rat.floor ((number : ℚ) / divisor) = number / (divisor : ℤ) :=
    Rat.floor_intCast_div_natCast number divisor
  -- Rounding toward zero is rounding down for one sign, and up for the other.
  have hquotient : (if 0 ≤ (dividend : ℚ) / divisor then Rat.floor ((dividend : ℚ) / divisor)
      else Rat.ceil ((dividend : ℚ) / divisor)) = dividend.tdiv divisor := by
    rcases le_or_gt 0 dividend with hsign | hsign
    · have hle : (0 : ℚ) ≤ dividend / divisor :=
        div_nonneg (Int.cast_nonneg hsign) hpositive.le
      rw [if_pos hle, hfloor, Int.tdiv_eq_ediv_of_nonneg hsign]
    · have hlt : (dividend : ℚ) / divisor < 0 :=
        div_neg_of_neg_of_pos (Int.cast_lt_zero.mpr hsign) hpositive
      have hback : 0 ≤ -dividend := by omega
      rw [if_neg (not_le.mpr hlt), Rat.ceil_eq_neg_floor_neg, ← neg_div, ← Int.cast_neg, hfloor,
        ← Int.tdiv_eq_ediv_of_nonneg hback, Int.neg_tdiv, neg_neg]
  have hdivision := Int.mul_tdiv_add_tmod dividend divisor
  rw [remainder, if_neg hdivisor]
  simp only [hquotient]
  congr 1
  rw [sub_eq_iff_eq_add']
  exact_mod_cast hdivision.symm

/-- The numeral spells a whole number. -/
def Spells (numeral : String) (number : ℕ) : Prop :=
  readNumber numeral.toList = some (number : ℚ)

instance (numeral : String) (number : ℕ) : Decidable (Spells numeral number) :=
  inferInstanceAs (Decidable (readNumber numeral.toList = some (number : ℚ)))

theorem spells_ofList {digits : List Char} (h : NthArgument.isDigits digits = true) :
    Spells (String.ofList digits) (NthArgument.spelled digits) := by
  rw [Spells, String.toList_ofList]
  exact readNumber_of_isDigits h

end XPath

/-! ## Predicates of progressions -/

/-- Without a remainder and from the offset on stand the places of the progression. -/
private theorem exists_place_iff {place step offset : ℕ} (h : step ≠ 0) :
    ((place : ℤ) - offset).tmod step = 0 ∧ offset ≤ place ↔ ∃ k, place = step * k + offset := by
  constructor
  · rintro ⟨hremainder, hle⟩
    obtain ⟨k, hk⟩ := Int.dvd_of_tmod_eq_zero hremainder
    have hstep : (0 : ℤ) < step := Int.natCast_pos.mpr (Nat.pos_of_ne_zero h)
    have hnonneg : 0 ≤ k := by
      by_contra hneg
      have hlt : (step : ℤ) * k < 0 := Int.mul_neg_of_pos_of_neg hstep (by omega)
      omega
    lift k to ℕ using hnonneg
    refine ⟨k, ?_⟩
    zify
    omega
  · rintro ⟨k, rfl⟩
    refine ⟨?_, by omega⟩
    apply Int.tmod_eq_zero_of_dvd
    refine ⟨k, ?_⟩
    push_cast
    ring

section Predicates

variable {context : Context} {step offset : String} {stepValue offsetValue : ℕ}

/-- A test for a remainder and a lower bound is false when there is nothing to divide by. -/
private theorem toTruth_remainder_iff {dividend : Expr} {difference : ℤ}
    (hdividend : dividend.eval context = .number (some (difference : ℚ)))
    (hstep : Spells step stepValue) (hoffset : Spells offset offsetValue) :
    ((Expr.both (.equal (.modulo dividend (.numeral step)) (.numeral "0"))
      (.atLeast .position (.numeral offset))).eval context).toTruth = true ↔
        stepValue ≠ 0 ∧ difference.tmod stepValue = 0 ∧ offsetValue ≤ context.position := by
  have hzero : readNumber "0".toList = some 0 := by decide +kernel
  rw [Spells] at hstep hoffset
  simp only [Expr.eval, hdividend, hstep, hoffset, hzero, Value.toNumber, Option.bind_some]
  by_cases h : stepValue = 0
  · simp [h, remainder, Value.equal, Value.candidates, Value.same, Value.sameNumber, Value.toTruth]
  · simp [h, remainder_intCast, Value.equal, Value.candidates, Value.same, Value.sameNumber,
      Value.toNumber, Value.atLeast, Value.numberAtLeast, Value.toTruth]

/-- The predicate of a formula holds at its places, if it has a step. -/
private theorem toTruth_every_iff (hstep : Spells step stepValue)
    (hoffset : Spells offset offsetValue) :
    ((NthArgument.predicate.every step offset).eval context).toTruth = true ↔
      stepValue ≠ 0 ∧ ∃ k, context.position = stepValue * k + offsetValue := by
  have hdividend : (Expr.group (.minus .position (.numeral offset))).eval context =
      .number (some ((((context.position : ℤ) - offsetValue : ℤ)) : ℚ)) := by
    rw [Spells] at hoffset
    simp [Expr.eval, Value.toNumber, hoffset]
  rw [NthArgument.predicate.every, toTruth_remainder_iff hdividend hstep hoffset]
  apply and_congr_right
  intro hne
  exact exists_place_iff hne

/-- The predicate of `even` holds at the multiples of two. -/
private theorem toTruth_even_iff :
    (NthArgument.even.predicate.eval context).toTruth = true ↔
      ∃ k, context.position = 2 * k + 0 := by
  have hdividend : Expr.position.eval context =
      .number (some ((((context.position : ℤ) - (0 : ℕ) : ℤ)) : ℚ)) := by
    simp [Expr.eval]
  have htwo : Spells "2" 2 := by decide +kernel
  have hzero : Spells "0" 0 := by decide +kernel
  rw [NthArgument.predicate, toTruth_remainder_iff hdividend htwo hzero,
    exists_place_iff (by decide)]
  exact and_iff_right (by decide)

/-- The predicate of a number holds at that place. -/
private theorem toTruth_index_iff (hoffset : Spells offset offsetValue) :
    ((NthArgument.index offset).predicate.eval context).toTruth = true ↔
      context.position = offsetValue := by
  rw [Spells] at hoffset
  simp [NthArgument.predicate, Expr.eval, hoffset, Value.equal, Value.candidates, Value.same,
    Value.sameNumber, Value.toNumber, Value.toTruth]

end Predicates

/-- The argument of a progression is read, and its predicate holds at the places of the progression,
unless a formula has the step zero. -/
theorem NthArgument.Progression.exists_argument {text : String} {step offset : ℕ}
    (h : Progression text step offset) :
    ∃ argument, ofText? text = some argument ∧ ∀ context : Context,
      (argument.predicate.eval context).toTruth = true ↔
        (∃ k, context.position = step * k + offset) ∧
          (step = 0 → isDigits text.toList = true) := by
  cases h with
  | odd =>
    have htwo : Spells "2" 2 := by decide +kernel
    have hone : Spells "1" 1 := by decide +kernel
    refine ⟨.odd, rfl, fun context ↦ ?_⟩
    rw [predicate, toTruth_every_iff htwo hone]
    simp
  | even =>
    refine ⟨.even, rfl, fun context ↦ ?_⟩
    rw [toTruth_even_iff]
    simp
  | @index digits hdigits =>
    refine ⟨_, ofText?_digits hdigits, fun context ↦ ?_⟩
    rw [toTruth_index_iff (spells_ofList hdigits)]
    simp [hdigits]
  | @every stepDigits offsetDigits mark hmark hstep hoffset =>
    refine ⟨_, ofText?_formula hmark hstep hoffset, fun context ↦ ?_⟩
    have hmarked : ¬isDigits (stepDigits ++ mark :: '+' :: offsetDigits) = true := by
      intro hdigits
      have hplus := isDigit_of_isDigits hdigits (c := '+') (by simp)
      cases hplus
    rw [predicate, toTruth_every_iff (spells_ofList hstep) (spells_ofList hoffset),
      String.toList_ofList, and_comm]
    simp [hmarked]

/-- The predicate of `:nth-child` with the argument of a progression holds exactly at the places of
the progression, except that a formula with the step zero holds nowhere. -/
theorem holdsAt_nthChild_iff {text : String} {step offset : ℕ}
    (h : NthArgument.Progression text step offset) :
    ∃ place, pseudoPredicate "nth-child" text = .ok place ∧ ∀ context : Context,
      (place.eval context).holdsAt context.position = true ↔
        (∃ k, context.position = step * k + offset) ∧
          (step = 0 → NthArgument.isDigits text.toList = true) := by
  obtain ⟨argument, hargument, hholds⟩ := h.exists_argument
  refine ⟨argument.predicate, ?_, ?_⟩
  · simp [pseudoPredicate, hargument]
  · intro context
    rw [(argument.isTest_predicate context).holdsAt_eq]
    exact hholds context

/-- A formula with a zero in front of its step, at the places two, three and five of five. -/
theorem holdsAt_nthChild_iff_of_formula :
    let item : Element := .mk "li" .empty []
    NthArgument.Progression "03N+2" 3 2 ∧ ∃ place,
      pseudoPredicate "nth-child" "03N+2" = .ok place ∧
        (place.eval ⟨item, 2, 5⟩).holdsAt 2 = true ∧
        (place.eval ⟨item, 5, 5⟩).holdsAt 5 = true ∧
        ¬(place.eval ⟨item, 3, 5⟩).holdsAt 3 = true := by
  intro item
  have hformula : NthArgument.Progression "03N+2" 3 2 :=
    @NthArgument.Progression.every ['0', '3'] ['2'] 'N' (.inr rfl) rfl rfl
  obtain ⟨place, hplace, hholds⟩ := holdsAt_nthChild_iff hformula
  refine ⟨hformula, place, hplace, ?_, ?_, ?_⟩
  · exact (hholds ⟨item, 2, 5⟩).mpr ⟨⟨0, rfl⟩, by simp⟩
  · exact (hholds ⟨item, 5, 5⟩).mpr ⟨⟨1, rfl⟩, by simp⟩
  · intro hthree
    obtain ⟨⟨k, hk⟩, _⟩ := (hholds ⟨item, 3, 5⟩).mp hthree
    change 3 = 3 * k + 2 at hk
    omega

/-- The formula `0n+3` stands for the third place, as the number `3` does. The predicate of the
number holds there, and that of the formula does not. -/
theorem not_holdsAt_step_zero :
    let third : Context := ⟨.mk "li" .empty [], 3, 3⟩
    NthArgument.Progression "0n+3" 0 3 ∧
      (∃ place, pseudoPredicate "nth-child" "3" = .ok place ∧
        (place.eval third).holdsAt third.position = true) ∧
      ∃ place, pseudoPredicate "nth-child" "0n+3" = .ok place ∧
        place.render = "(position() -3) mod 0 = 0 and position() >= 3" ∧
        ¬((place.eval third).holdsAt third.position = true ↔
          ∃ k, third.position = 0 * k + 3) := by
  intro third
  refine ⟨@NthArgument.Progression.every ['0'] ['3'] 'n' (.inl rfl) rfl rfl,
    ⟨_, rfl, by decide +kernel⟩, _, rfl, by decide +kernel, ?_⟩
  intro hlaw
  exact absurd (hlaw.mpr ⟨0, rfl⟩) (by decide +kernel)

end SelectorCompiler
