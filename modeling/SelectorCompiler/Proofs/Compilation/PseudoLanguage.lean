import SelectorCompiler.Proofs.Compilation.Priority
import SelectorCompiler.Proofs.Compilation.Progression

/-!
# The language of pseudo-classes

Three names have predicates, and one of them, `nth-child`, needs an argument. The argument is `odd`,
`even`, a number or a formula; numbers and formulas are given here by their grammar.

The reader of numbers takes one part after another and never goes back. For each part there is a
lemma for either direction: what the reader takes has the shape of the part, and a part with the
next one behind it is taken whole. `isDecimal_iff` puts them together. The four forms exclude each
other because each is read as an argument of its own kind.
-/

namespace SelectorCompiler

open Text XPath

namespace NthArgument

/-! ## The grammar of arguments -/

/-- One of the ten digits. -/
def DigitChar (c : Char) : Prop := '0' ≤ c ∧ c ≤ '9'

/-- At least one digit, and nothing else. -/
def DigitRun (run : List Char) : Prop := run ≠ [] ∧ ∀ c ∈ run, DigitChar c

/-- A sign, or nothing. -/
inductive Sign : List Char → Prop where
  | none : Sign []
  | plus : Sign ['+']
  | minus : Sign ['-']

/-- Digits with a point behind, among or in front of them, or without one. -/
inductive Mantissa : List Char → Prop where
  | whole {digits : List Char} (h : DigitRun digits) : Mantissa digits
  | pointed {digits more : List Char} (h : DigitRun digits) (hmore : ∀ c ∈ more, DigitChar c) :
    Mantissa (digits ++ '.' :: more)
  | fraction {digits : List Char} (h : DigitRun digits) : Mantissa ('.' :: digits)

/-- A power of ten, or nothing. -/
inductive Exponent : List Char → Prop where
  | none : Exponent []
  | power {mark : Char} {sign digits : List Char} (hmark : mark = 'e' ∨ mark = 'E')
    (hsign : Sign sign) (h : DigitRun digits) : Exponent (mark :: (sign ++ digits))

/-- A number, with white space around it. -/
inductive Number : List Char → Prop where
  | mk {before sign mantissa exponent after : List Char} (hbefore : Blank before)
    (hsign : Sign sign) (hmantissa : Mantissa mantissa) (hexponent : Exponent exponent)
    (hafter : Blank after) : Number (before ++ (sign ++ (mantissa ++ exponent)) ++ after)

/-- A formula such as `3n+1`, with its two runs of digits. -/
inductive Formula : List Char → List Char → List Char → Prop where
  | mk {step offset : List Char} {mark : Char} (hstep : DigitRun step)
    (hmark : mark = 'n' ∨ mark = 'N') (hoffset : DigitRun offset) :
    Formula (step ++ mark :: '+' :: offset) step offset

/-! ## Digits and signs -/

theorem isDigit_iff {c : Char} : c.isDigit = true ↔ DigitChar c := by
  change (decide ('0' ≤ c) && decide (c ≤ '9')) = true ↔ _
  simp only [Bool.and_eq_true, decide_eq_true_eq, DigitChar]

theorem isDigits_iff {run : List Char} : isDigits run = true ↔ DigitRun run := by
  simp [isDigits, DigitRun, isDigit_iff]

/-- A sign is dropped, if there is one. -/
theorem exists_sign (text : List Char) : ∃ sign, Sign sign ∧ text = sign ++ dropSign text := by
  unfold dropSign
  split
  · exact ⟨['+'], .plus, rfl⟩
  · exact ⟨['-'], .minus, rfl⟩
  · exact ⟨[], .none, rfl⟩

/-- In front of a text without a sign, just the sign is dropped. -/
theorem dropSign_append {sign text : List Char} (hsign : Sign sign)
    (hplus : text.head? ≠ some '+') (hminus : text.head? ≠ some '-') :
    dropSign (sign ++ text) = text := by
  cases hsign with
  | none =>
    change dropSign text = text
    unfold dropSign
    split
    · exact absurd rfl hplus
    · exact absurd rfl hminus
    · rfl
  | plus => rfl
  | minus => rfl

/-- Digits do not begin with another character. -/
theorem DigitRun.head?_ne {digits : List Char} (h : DigitRun digits) {c : Char}
    (hc : c.isDigit = false) : digits.head? ≠ some c := by
  intro hhead
  have hdigit := isDigit_iff.mpr (h.2 c (List.mem_of_head? hhead))
  rw [hc] at hdigit
  cases hdigit

/-! ## Exponents -/

theorem isExponentPart_iff {text : List Char} : isExponentPart text = true ↔ Exponent text := by
  constructor
  · intro h
    cases text with
    | nil => exact .none
    | cons mark rest =>
      simp only [isExponentPart, Bool.and_eq_true, Bool.or_eq_true, beq_iff_eq] at h
      obtain ⟨sign, hsign, hrest⟩ := exists_sign rest
      rw [hrest]
      exact .power h.1 hsign (isDigits_iff.mp h.2)
  · intro h
    cases h with
    | none => rfl
    | power hmark hsign hdigits =>
      have hdrop := dropSign_append hsign (hdigits.head?_ne rfl) (hdigits.head?_ne rfl)
      rw [isExponentPart, hdrop, isDigits_iff.mpr hdigits]
      rcases hmark with rfl | rfl <;> rfl

/-- An exponent begins with no digit and no point. -/
theorem Exponent.stopsAt {text : List Char} (h : Exponent text) :
    StopsAt Char.isDigit text ∧ text.head? ≠ some '.' := by
  cases h with
  | none => exact ⟨by simp [StopsAt], by simp⟩
  | power hmark _ _ =>
    refine ⟨?_, ?_⟩
    · rintro c ⟨⟩
      rcases hmark with rfl | rfl <;> rfl
    · rintro ⟨⟩
      simp at hmark

/-! ## Mantissas -/

/-- What follows the mantissa at the front of a text, if there is one. -/
def mantissaRest? (text : List Char) : Option (List Char) :=
  let tail := fraction (text.dropWhile Char.isDigit)
  if (text.takeWhile Char.isDigit).isEmpty && tail.1.isEmpty then none else some tail.2

theorem isDecimal_eq (text : List Char) :
    isDecimal text = (mantissaRest? (dropSign (trim text))).any isExponentPart := by
  simp only [isDecimal, mantissaRest?]
  split
  · next hempty => simp [hempty]
  · next hsome => simp [hsome]

/-- Without a point in front there is no fraction. -/
theorem fraction_of_head?_ne {text : List Char} (h : text.head? ≠ some '.') :
    fraction text = ([], text) := by
  unfold fraction
  split
  · exact absurd rfl h
  · rfl

/-- A mantissa has been taken. -/
theorem exists_mantissa {text rest : List Char} (h : mantissaRest? text = some rest) :
    ∃ mantissa, Mantissa mantissa ∧ text = mantissa ++ rest := by
  have digits {text : List Char} : ∀ c ∈ text.takeWhile Char.isDigit, DigitChar c :=
    fun c hc ↦ isDigit_iff.mp (List.mem_takeWhile_imp hc)
  have hwhole := @digits text
  have htext := List.takeWhile_append_dropWhile (p := Char.isDigit) (l := text)
  simp only [mantissaRest?] at h
  generalize text.takeWhile Char.isDigit = whole at h htext hwhole
  generalize text.dropWhile Char.isDigit = behind at h htext
  subst htext
  by_cases hpoint : behind.head? = some '.'
  · obtain ⟨more, rfl⟩ := List.head?_eq_some_iff.mp hpoint
    have hmore := List.takeWhile_append_dropWhile (p := Char.isDigit) (l := more)
    simp only [fraction, Option.ite_none_left_eq_some, Option.some.injEq, Bool.and_eq_true,
      List.isEmpty_iff] at h
    obtain ⟨hsome, rfl⟩ := h
    by_cases hnone : whole = []
    · subst hnone
      refine ⟨'.' :: more.takeWhile Char.isDigit, .fraction ⟨?_, digits⟩, by simp⟩
      exact fun hempty ↦ hsome ⟨rfl, hempty⟩
    · exact ⟨whole ++ '.' :: more.takeWhile Char.isDigit, .pointed ⟨hnone, hwhole⟩ digits, by simp⟩
  · rw [fraction_of_head?_ne hpoint] at h
    simp only [Option.ite_none_left_eq_some, Option.some.injEq, List.isEmpty_nil, Bool.and_true,
      List.isEmpty_iff] at h
    obtain ⟨hsome, rfl⟩ := h
    exact ⟨whole, .whole ⟨hsome, hwhole⟩, rfl⟩

/-- A mantissa is taken whole. -/
theorem Mantissa.mantissaRest?_append {mantissa rest : List Char} (h : Mantissa mantissa)
    (hdigit : StopsAt Char.isDigit rest) (hpoint : rest.head? ≠ some '.') :
    mantissaRest? (mantissa ++ rest) = some rest := by
  have isDigit {run : List Char} (hrun : ∀ c ∈ run, DigitChar c) : ∀ c ∈ run, c.isDigit = true :=
    fun c hc ↦ isDigit_iff.mpr (hrun c hc)
  have hstop {more : List Char} : StopsAt Char.isDigit ('.' :: more) := by
    rintro c ⟨⟩
    rfl
  cases h with
  | whole hdigits =>
    obtain ⟨htake, hdrop⟩ := takeWhile_run (isDigit hdigits.2) hdigit
    simp [mantissaRest?, htake, hdrop, fraction_of_head?_ne hpoint, hdigits.1]
  | @pointed digits more hdigits hmore =>
    obtain ⟨htake, hdrop⟩ := takeWhile_run (isDigit hdigits.2) (@hstop (more ++ rest))
    obtain ⟨-, hrest⟩ := takeWhile_run (isDigit hmore) hdigit
    rw [List.append_assoc, List.cons_append]
    simp [mantissaRest?, htake, hdrop, NthArgument.fraction, hrest, hdigits.1]
  | @fraction digits hdigits =>
    obtain ⟨htake, hrest⟩ := takeWhile_run (isDigit hdigits.2) hdigit
    have hpoint : Char.isDigit '.' = false := rfl
    simp [mantissaRest?, NthArgument.fraction, hpoint, htake, hrest, hdigits.1]

/-- A mantissa begins with a digit or a point. -/
theorem Mantissa.head?_append_ne {mantissa : List Char} (h : Mantissa mantissa) {c : Char}
    (hdigit : c.isDigit = false) (hpoint : c ≠ '.') (rest : List Char) :
    (mantissa ++ rest).head? ≠ some c := by
  cases h with
  | whole hdigits =>
    rw [List.head?_append_of_ne_nil _ hdigits.1]
    exact hdigits.head?_ne hdigit
  | pointed hdigits _ =>
    rw [List.append_assoc, List.head?_append_of_ne_nil _ hdigits.1]
    exact hdigits.head?_ne hdigit
  | fraction _ =>
    rintro ⟨⟩
    exact hpoint rfl

/-! ## Numbers -/

section Characters

variable {c : Char}

/-- No character of a number is white space. -/
theorem isWhiteSpace_of_isNumeralChar (h : isNumeralChar c = true) : isWhiteSpace c = false := by
  simp only [isNumeralChar, Bool.or_eq_true, beq_iff_eq] at h
  rcases h with ((((hdigit | rfl) | rfl) | rfl) | rfl) | rfl
  · exact isWhiteSpace_of_isTagChar (isTagChar_of_isDigit hdigit)
  all_goals rfl

theorem DigitChar.isNumeralChar (h : DigitChar c) : isNumeralChar c = true :=
  isNumeralChar_of_isDigit (isDigit_iff.mpr h)

theorem Sign.isNumeralChar {sign : List Char} (h : Sign sign) (hc : c ∈ sign) :
    isNumeralChar c = true := by
  cases h with
  | none => cases hc
  | plus =>
    rw [List.mem_singleton.mp hc]
    rfl
  | minus =>
    rw [List.mem_singleton.mp hc]
    rfl

theorem Mantissa.isNumeralChar {mantissa : List Char} (h : Mantissa mantissa) (hc : c ∈ mantissa) :
    isNumeralChar c = true := by
  cases h with
  | whole hdigits => exact (hdigits.2 c hc).isNumeralChar
  | pointed hdigits hmore =>
    rcases List.mem_append.mp hc with hc | hc
    · exact (hdigits.2 c hc).isNumeralChar
    · rcases List.mem_cons.mp hc with rfl | hc
      · rfl
      · exact (hmore c hc).isNumeralChar
  | fraction hdigits =>
    rcases List.mem_cons.mp hc with rfl | hc
    · rfl
    · exact (hdigits.2 c hc).isNumeralChar

theorem Exponent.isNumeralChar {exponent : List Char} (h : Exponent exponent) (hc : c ∈ exponent) :
    isNumeralChar c = true := by
  cases h with
  | none => cases hc
  | power hmark hsign hdigits =>
    rcases List.mem_cons.mp hc with rfl | hc
    · rcases hmark with rfl | rfl <;> rfl
    · rcases List.mem_append.mp hc with hc | hc
      · exact hsign.isNumeralChar hc
      · exact (hdigits.2 c hc).isNumeralChar

end Characters

/-- Numbers are recognised by their grammar. -/
theorem isDecimal_iff {text : List Char} : isDecimal text = true ↔ Number text := by
  rw [isDecimal_eq, Option.any_eq_true]
  constructor
  · rintro ⟨rest, hrest, hexponent⟩
    obtain ⟨before, after, hbefore, hafter, htext⟩ := exists_blank_around text
    obtain ⟨sign, hsign, hbody⟩ := exists_sign (trim text)
    obtain ⟨mantissa, hmantissa, hdrop⟩ := exists_mantissa hrest
    rw [htext, hbody, hdrop]
    exact .mk hbefore hsign hmantissa (isExponentPart_iff.mp hexponent) hafter
  · intro h
    cases h with
    | @mk before sign mantissa exponent after hbefore hsign hmantissa hexponent hafter =>
      have hink : ∀ c ∈ sign ++ (mantissa ++ exponent), isWhiteSpace c = false := by
        intro c hc
        rw [List.mem_append, List.mem_append] at hc
        rcases hc with hc | hc | hc
        · exact isWhiteSpace_of_isNumeralChar (hsign.isNumeralChar hc)
        · exact isWhiteSpace_of_isNumeralChar (hmantissa.isNumeralChar hc)
        · exact isWhiteSpace_of_isNumeralChar (hexponent.isNumeralChar hc)
      have hbegin : BeginsInk (sign ++ (mantissa ++ exponent)) :=
        fun c rest hcons ↦ hink c (hcons ▸ List.mem_cons_self)
      have hhead {c : Char} (hdigit : c.isDigit = false) (hpoint : c ≠ '.') :
          (mantissa ++ exponent).head? ≠ some c :=
        hmantissa.head?_append_ne hdigit hpoint exponent
      obtain ⟨hdigit, hpoint⟩ := hexponent.stopsAt
      rw [trim_blank_around hbefore hafter hbegin (.of_forall hink),
        dropSign_append hsign (hhead rfl (by decide)) (hhead rfl (by decide)),
        hmantissa.mantissaRest?_append hdigit hpoint]
      exact ⟨exponent, rfl, isExponentPart_iff.mpr hexponent⟩

/-! ## Formulas -/

/-- Formulas are recognised by their grammar. -/
theorem formula?_eq_some_iff {text step offset : List Char} :
    formula? text = some (step, offset) ↔ Formula text step offset := by
  constructor
  · intro h
    obtain ⟨hstep, hoffset⟩ := isDigits_of_formula? h
    have htext := List.takeWhile_append_dropWhile (p := fun c ↦ !(c == 'n' || c == 'N')) (l := text)
    have hhead := List.head?_dropWhile_not (fun c ↦ !(c == 'n' || c == 'N')) text
    simp only [formula?] at h
    split at h
    · next mark rest hdrop =>
      rw [hdrop] at htext hhead
      have hmark : mark = 'n' ∨ mark = 'N' := by
        rw [Decidable.or_iff_not_imp_left]
        simpa using hhead
      split at h
      · cases h
        have hformula := Formula.mk (isDigits_iff.mp hstep) hmark (isDigits_iff.mp hoffset)
        rwa [htext] at hformula
      · cases h
    · cases h
  · rintro ⟨hstep, hmark, hoffset⟩
    exact formula?_runs hmark (isDigits_iff.mpr hstep) (isDigits_iff.mpr hoffset)

/-! ## The four forms -/

/-- The form of an argument. -/
inductive Form where
  | odd
  | even
  | number
  | formula

/-- The text has this form. -/
def Form.Fits : Form → String → Prop
  | .odd, text => text = "odd"
  | .even, text => text = "even"
  | .number, text => Number text.toList
  | .formula, text => ∃ step offset, Formula text.toList step offset

/-- The form that an argument was read from. -/
def form : NthArgument → Form
  | .odd => .odd
  | .even => .even
  | .index _ => .number
  | .every _ _ => .formula

/-- A number is read as it is written. -/
theorem ofText?_number {text : String} (h : Number text.toList) :
    ofText? text = some (.index text) := by
  have hdecimal := isDecimal_iff.mpr h
  have hother {keyword : String} {c : Char} (hc : c ∈ keyword.toList)
      (hletter : isArgumentChar c = false) : text ≠ keyword := by
    rintro rfl
    rw [isArgumentChar_of_isDecimal hdecimal hc] at hletter
    cases hletter
  have hodd : text ≠ "odd" := hother (c := 'd') (by decide) (by decide)
  have heven : text ≠ "even" := hother (c := 'v') (by decide) (by decide)
  rw [ofText?, if_neg hodd, if_neg heven, if_pos hdecimal]

/-- A formula is read as its two runs of digits. -/
theorem ofText?_of_formula {text : String} {step offset : List Char}
    (h : Formula text.toList step offset) :
    ofText? text = some (.every (String.ofList step) (String.ofList offset)) := by
  obtain ⟨chars, rfl⟩ : ∃ chars, text = String.ofList chars :=
    ⟨text.toList, String.ofList_toList.symm⟩
  rw [String.toList_ofList] at h
  cases h with
  | mk hstep hmark hoffset =>
    exact ofText?_formula hmark (isDigits_iff.mpr hstep) (isDigits_iff.mpr hoffset)

/-- A text of any form is read as an argument of that form. -/
theorem Form.Fits.exists_argument {form : Form} {text : String} (h : form.Fits text) :
    ∃ argument, ofText? text = some argument ∧ argument.form = form := by
  cases form with
  | odd =>
    cases h
    exact ⟨.odd, rfl, rfl⟩
  | even =>
    cases h
    exact ⟨.even, rfl, rfl⟩
  | number => exact ⟨_, ofText?_number h, rfl⟩
  | formula =>
    obtain ⟨step, offset, hformula⟩ := h
    exact ⟨_, ofText?_of_formula hformula, rfl⟩

/-- An argument is read from a text of its form only. -/
theorem fits_of_ofText? {text : String} {argument : NthArgument}
    (h : ofText? text = some argument) : argument.form.Fits text := by
  unfold ofText? at h
  split at h
  · next hodd =>
    cases h
    exact hodd
  · split at h
    · next heven =>
      cases h
      exact heven
    · split at h
      · next hdecimal =>
        cases h
        exact isDecimal_iff.mp hdecimal
      · obtain ⟨⟨step, offset⟩, hruns, rfl⟩ := Option.map_eq_some_iff.mp h
        exact ⟨step, offset, formula?_eq_some_iff.mp hruns⟩

/-- A text has at most one form. -/
theorem Form.Fits.form_unique {form other : Form} {text : String} (h : form.Fits text)
    (hother : other.Fits text) : form = other := by
  obtain ⟨argument, hargument, rfl⟩ := h.exists_argument
  obtain ⟨second, hsecond, rfl⟩ := hother.exists_argument
  rw [hargument] at hsecond
  cases hsecond
  rfl

end NthArgument

/-! ## Pseudo-classes -/

open NthArgument

/-- The names with a predicate; that of `nth-child` needs an argument that has a form. -/
def PseudoClass.Accepted (name expression : String) : Prop :=
  name = "first-child" ∨ name = "last-child" ∨
    name = "nth-child" ∧ ∃ form : Form, form.Fits expression

section Predicates

variable {name expression : String}

theorem pseudoPredicate_nthChild {argument : NthArgument} (h : ofText? expression = some argument) :
    pseudoPredicate "nth-child" expression = .ok argument.predicate := by
  simp [pseudoPredicate, h]

theorem exists_pseudoPredicate_iff :
    (∃ place, pseudoPredicate name expression = .ok place) ↔
      PseudoClass.Accepted name expression := by
  constructor
  · rintro ⟨place, h⟩
    rcases @PseudoClass.predicate_eq_ok ⟨name, some expression⟩ place h with
      ⟨hname, -⟩ | ⟨hname, -⟩ | ⟨hname, argument, hargument, -⟩
    · exact .inl hname
    · exact .inr (.inl hname)
    · exact .inr (.inr ⟨hname, argument.form, fits_of_ofText? hargument⟩)
  · rintro (rfl | rfl | ⟨rfl, form, hform⟩)
    · exact ⟨.numeral "1", rfl⟩
    · exact ⟨.last, rfl⟩
    · obtain ⟨argument, hargument, -⟩ := hform.exists_argument
      exact ⟨_, pseudoPredicate_nthChild hargument⟩

/-- A pseudo-class without a predicate is named by its error. -/
theorem pseudoPredicate_of_not_accepted (h : ¬PseudoClass.Accepted name expression) :
    pseudoPredicate name expression =
      .error (.unsupportedPseudoClass name (if expression = "" then none else some expression)) := by
  cases hresult : pseudoPredicate name expression with
  | ok place => exact absurd (exists_pseudoPredicate_iff.mp ⟨place, hresult⟩) h
  | error error => rw [pseudoPredicate_eq_error hresult]

end Predicates

/-- A pseudo-class has a predicate exactly when it is accepted. The argument of `nth-child` has at
most one form; a number is copied into the predicate as it is written, and of a formula the two runs
of digits are. Any other pseudo-class is rejected with its name and its argument, if that has any
text. -/
theorem pseudoPredicate_language (name expression : String) :
    ((∃ place, pseudoPredicate name expression = .ok place) ↔
      PseudoClass.Accepted name expression) ∧
    (∀ form other : Form, form.Fits expression → other.Fits expression → form = other) ∧
    (Number expression.toList →
      (pseudoPredicate "nth-child" expression).map Expr.render =
        .ok ("position() = " ++ expression)) ∧
    (∀ step offset : String, Formula expression.toList step.toList offset.toList →
      (pseudoPredicate "nth-child" expression).map Expr.render =
        .ok ("(position() -" ++ offset ++ ") mod " ++ step ++ " = 0 and position() >= " ++
          offset)) ∧
    (¬PseudoClass.Accepted name expression →
      pseudoPredicate name expression =
        .error (.unsupportedPseudoClass name
          (if expression = "" then none else some expression))) := by
  refine ⟨exists_pseudoPredicate_iff, fun _ _ h hother ↦ h.form_unique hother, ?_, ?_,
    pseudoPredicate_of_not_accepted⟩
  · intro hnumber
    rw [pseudoPredicate_nthChild (ofText?_number hnumber), ← NthArgument.render_index]
    rfl
  · intro step offset hformula
    have hread := ofText?_of_formula hformula
    rw [String.ofList_toList, String.ofList_toList] at hread
    rw [pseudoPredicate_nthChild hread, ← NthArgument.render_every]
    rfl

/-- A number with a sign, an exponent and white space around it, not only from ASCII; a formula with
a zero in front; and a difference, which is no formula. -/
theorem pseudoPredicate_language_of_numbers :
    Number " -.5E+2\u3000".toList ∧
      (pseudoPredicate "nth-child" " -.5E+2\u3000").map Expr.render =
        .ok "position() =  -.5E+2\u3000" ∧
      Formula "03N+2".toList "03".toList "2".toList ∧
      (pseudoPredicate "nth-child" "03N+2").map Expr.render =
        .ok "(position() -2) mod 03 = 0 and position() >= 2" ∧
      ¬PseudoClass.Accepted "nth-child" "2n-1" ∧
      pseudoPredicate "nth-child" "2n-1" =
        .error (.unsupportedPseudoClass "nth-child" (some "2n-1")) := by
  have hnumber : Number " -.5E+2\u3000".toList :=
    @Number.mk [' '] ['-'] ['.', '5'] ['E', '+', '2'] ['\u3000'] (by decide) .minus
      (.fraction (isDigits_iff.mp rfl)) (.power (.inr rfl) .plus (isDigits_iff.mp rfl)) (by decide)
  have hformula : Formula "03N+2".toList "03".toList "2".toList :=
    @Formula.mk ['0', '3'] ['2'] 'N' (isDigits_iff.mp rfl) (.inr rfl) (isDigits_iff.mp rfl)
  have hother : ¬PseudoClass.Accepted "nth-child" "2n-1" := by
    rw [← exists_pseudoPredicate_iff]
    rintro ⟨place, hplace⟩
    cases hplace
  obtain ⟨-, -, hindex, -, -⟩ := pseudoPredicate_language "nth-child" " -.5E+2\u3000"
  obtain ⟨-, -, -, hevery, -⟩ := pseudoPredicate_language "nth-child" "03N+2"
  obtain ⟨-, -, -, -, hrejected⟩ := pseudoPredicate_language "nth-child" "2n-1"
  exact ⟨hnumber, hindex hnumber, hformula, hevery "03" "2" hformula, hother, hrejected hother⟩

end SelectorCompiler
