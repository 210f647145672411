import SelectorCompiler.Proofs.Text.Trimming
import SelectorCompiler.Selector.NthChild

/-!
# Characters of an `:nth-child` argument

The texts that an argument is made of are copied into a path as they are. They are numbers, so they
hold digits, signs, points and the marks of an exponent, and white space around these; no bracket,
parenthesis or quotation mark comes into a path this way.
-/

namespace SelectorCompiler.NthArgument

open Text

/-- The character can stand in a decimal number. -/
def isNumeralChar (c : Char) : Bool :=
  c.isDigit || c == '+' || c == '-' || c == '.' || c == 'e' || c == 'E'

/-- White space, or a character of a decimal number. -/
def isArgumentChar (c : Char) : Bool :=
  isWhiteSpace c || isNumeralChar c

theorem isNumeralChar_of_isDigit {c : Char} (h : c.isDigit = true) : isNumeralChar c = true := by
  simp [isNumeralChar, h]

section Characters

variable {text : List Char} {c : Char}

theorem isDigit_of_isDigits (h : isDigits text = true) (hc : c ∈ text) : c.isDigit = true := by
  rw [isDigits, Bool.and_eq_true] at h
  exact List.all_eq_true.mp h.2 c hc

/-- A sign is all that is dropped. -/
private theorem mem_dropSign (hc : c ∈ text) : c ∈ dropSign text ∨ isNumeralChar c = true := by
  unfold dropSign
  split
  · rcases List.mem_cons.mp hc with rfl | hc
    · exact .inr (by decide)
    · exact .inl hc
  · rcases List.mem_cons.mp hc with rfl | hc
    · exact .inr (by decide)
    · exact .inl hc
  · exact .inl hc

private theorem isNumeralChar_of_isExponentPart (h : isExponentPart text = true) (hc : c ∈ text) :
    isNumeralChar c = true := by
  cases text with
  | nil => cases hc
  | cons mark rest =>
    simp only [isExponentPart, Bool.and_eq_true, Bool.or_eq_true, beq_iff_eq] at h
    rcases List.mem_cons.mp hc with rfl | hc
    · rcases h.1 with rfl | rfl
      · decide
      · decide
    · rcases mem_dropSign hc with hc | hc
      · exact isNumeralChar_of_isDigit (isDigit_of_isDigits h.2 hc)
      · exact hc

/-- Before what follows a fraction stand its point and its digits. -/
private theorem mem_fraction (hc : c ∈ text) :
    c ∈ (fraction text).2 ∨ isNumeralChar c = true := by
  unfold fraction
  split
  · next rest =>
    rcases List.mem_cons.mp hc with rfl | hc
    · exact .inr (by decide)
    · rw [← List.takeWhile_append_dropWhile (p := Char.isDigit) (l := rest), List.mem_append] at hc
      rcases hc with hc | hc
      · exact .inr (isNumeralChar_of_isDigit (List.mem_takeWhile_imp hc))
      · exact .inl hc
  · exact .inl hc

/-- A decimal number has white space at its ends only, and no characters but those of numbers
between. -/
theorem isArgumentChar_of_isDecimal (h : isDecimal text = true) (hc : c ∈ text) :
    isArgumentChar c = true := by
  rw [isArgumentChar, Bool.or_eq_true]
  simp only [isDecimal, Bool.and_eq_true] at h
  obtain ⟨front, back, hfront, hback, htext⟩ := exists_blank_around text
  rw [htext, List.mem_append, List.mem_append] at hc
  rcases hc with (hc | hc) | hc
  · exact .inl (hfront c hc)
  · right
    rcases mem_dropSign hc with hbody | hsign
    · rw [← List.takeWhile_append_dropWhile (p := Char.isDigit) (l := dropSign (trim text)),
        List.mem_append] at hbody
      rcases hbody with hwhole | htail
      · exact isNumeralChar_of_isDigit (List.mem_takeWhile_imp hwhole)
      · rcases mem_fraction htail with hexponent | hfraction
        · exact isNumeralChar_of_isExponentPart h.2 hexponent
        · exact hfraction
    · exact hsign
  · exact .inl (hback c hc)

end Characters

/-- The texts of a formula are runs of digits. -/
theorem isDigits_of_formula? {text step offset : List Char}
    (h : formula? text = some (step, offset)) :
    isDigits step = true ∧ isDigits offset = true := by
  simp only [formula?] at h
  split at h
  · split at h
    · next hdigits =>
      cases h
      exact Bool.and_eq_true _ _ ▸ hdigits
    · cases h
  · cases h

/-- The texts of an argument that are copied into a path. -/
def texts : NthArgument → List String
  | .odd => []
  | .even => []
  | .index numeral => [numeral]
  | .every step offset => [step, offset]

/-- The texts of an argument that was read hold no other characters. -/
theorem isArgumentChar_of_mem_texts {text : String} {argument : NthArgument}
    (h : ofText? text = some argument) {copied : String} (hcopied : copied ∈ argument.texts)
    {c : Char} (hc : c ∈ copied.toList) : isArgumentChar c = true := by
  unfold ofText? at h
  split at h
  · cases h
    cases hcopied
  · split at h
    · cases h
      cases hcopied
    · split at h
      · next hdecimal =>
        cases h
        rw [List.mem_singleton.mp hcopied] at hc
        exact isArgumentChar_of_isDecimal hdecimal hc
      · obtain ⟨⟨step, offset⟩, hruns, rfl⟩ := Option.map_eq_some_iff.mp h
        obtain ⟨hstep, hoffset⟩ := isDigits_of_formula? hruns
        have hdigit : c.isDigit = true := by
          simp only [texts, List.mem_cons, List.not_mem_nil, or_false] at hcopied
          rcases hcopied with rfl | rfl
          · rw [String.toList_ofList] at hc
            exact isDigit_of_isDigits hstep hc
          · rw [String.toList_ofList] at hc
            exact isDigit_of_isDigits hoffset hc
        rw [isArgumentChar, isNumeralChar_of_isDigit hdigit, Bool.or_true]

end SelectorCompiler.NthArgument
