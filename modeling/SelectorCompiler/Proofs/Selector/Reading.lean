import SelectorCompiler.Proofs.Selector.Parts
import SelectorCompiler.Selector.Reading

/-!
# The steps of a reading

A reading takes one segment at a time. The three equations say what happens at a text: nothing can
be taken, or a segment with nothing but white space after it, or a segment with more to come.
-/

namespace SelectorCompiler.Reading

open Text

variable {text : List Char}

/-- A text that begins with no segment stops the reading. -/
theorem ofChars_of_text_eq_nil (h : (Parts.read text).1.text = []) :
    ofChars text = ⟨[], some (String.ofList text)⟩ := by
  rw [ofChars]
  simp only [h, dite_true]

/-- A segment with only white space after it ends the reading. -/
theorem ofChars_of_trimStart_eq_nil (h : (Parts.read text).1.text ≠ [])
    (hlast : trimStart (Parts.read text).2 = []) :
    ofChars text = ⟨[(Parts.read text).1.segment], none⟩ := by
  rw [ofChars]
  simp only [h, hlast, dite_false, if_true]

/-- A segment with more after it is the first of the reading. -/
theorem ofChars_of_trimStart_ne_nil (h : (Parts.read text).1.text ≠ [])
    (hmore : trimStart (Parts.read text).2 ≠ []) :
    ofChars text =
      ⟨(Parts.read text).1.segment :: (ofChars (trimStart (Parts.read text).2)).segments,
        (ofChars (trimStart (Parts.read text).2)).stuck⟩ := by
  rw [ofChars]
  simp only [h, hmore, dite_false, if_false]

/-- The empty text has no segment. -/
theorem ofChars_nil : ofChars [] = ⟨[], some ""⟩ := by
  have h := List.append_eq_nil_iff.mp (Parts.text_append_rest [])
  exact ofChars_of_text_eq_nil h.1

/-- Every segment of a reading comes from valid parts. -/
theorem exists_parts_of_mem {text : List Char} {segment : Segment}
    (h : segment ∈ (ofChars text).segments) :
    ∃ parts : Parts, parts.Valid ∧ parts.segment = segment := by
  fun_induction ofChars text with
  | case1 text cut hnothing => cases h
  | case2 text cut next hsome hlast =>
    rw [List.mem_singleton] at h
    exact ⟨cut.1, Parts.valid_read text, h.symm⟩
  | case3 text cut next hsome hmore later ih =>
    rcases List.mem_cons.mp h with hfirst | hlater
    · exact ⟨cut.1, Parts.valid_read text, hfirst.symm⟩
    · exact ih hlater

/-- A reading that reached the end has a segment. -/
theorem segments_ne_nil {text : List Char} (h : (ofChars text).stuck = none) :
    (ofChars text).segments ≠ [] := by
  fun_cases ofChars text with
  | case1 cut hnothing =>
    rw [ofChars_of_text_eq_nil hnothing] at h
    cases h
  | case2 cut next hsome hlast => exact List.cons_ne_nil _ _
  | case3 cut next hsome hmore later => exact List.cons_ne_nil _ _

/-- A reading gives its segments when it reached the end. -/
theorem chain_eq_ok_iff {reading : Reading} {segments : List Segment} :
    reading.chain = .ok segments ↔ reading.stuck = none ∧ reading.segments = segments := by
  obtain ⟨read, stuck⟩ := reading
  cases stuck with
  | none => simp [chain, error?]
  | some rest => simp [chain, error?]

/-- A reading fails with the text at which it got stuck. -/
theorem chain_eq_error_iff {reading : Reading} {error : CompileError} :
    reading.chain = .error error ↔
      ∃ rest, reading.stuck = some rest ∧ error = .invalidSelector rest := by
  obtain ⟨read, stuck⟩ := reading
  cases stuck with
  | none => simp [chain, error?]
  | some rest => simp [chain, error?, eq_comm]

end SelectorCompiler.Reading
