import SelectorCompiler.Proofs.Selector.Tiling
import SelectorCompiler.Proofs.Selector.Writing

/-!
# The text of a segment alone

A segment carries the text that it was read from. Read alone, that text gives the same segment,
whatever stood behind it: a bracket that is never closed, parentheses without an argument, a lone
mark, more segments or an error. Only white space at the end of the text is lost.

A reader that looked further than the text it took has declined there. It declines at the end of
the text too, since each part of a segment is followed by a part of another kind, by a gap or by
nothing. So valid parts are read from their own text, in `Parts.Valid.read_text`, and reading gives
valid parts only.
-/

namespace SelectorCompiler

open Text

/-! ## Parts -/

namespace Parts

/-- White space and the mark of a child make up a gap, if there are any. -/
private theorem Valid.beginsGap {parts : Parts} (h : parts.Valid) :
    BeginsGap (parts.blank ++ childText parts.child) := by
  cases parts.child with
  | true => exact .child h.blank []
  | false =>
    by_cases hblank : parts.blank = []
    · simp [hblank, childText, BeginsGap]
    · exact .blank_append h.blank hblank (childText false)

/-- Valid parts are read from their own text, and nothing is left. -/
theorem Valid.read_text {parts : Parts} (h : parts.Valid) : read parts.text = (parts, []) := by
  have hstop : StopsAt isWhiteSpace (childText parts.child) := by
    intro c hc
    cases hchild : parts.child with
    | true =>
      rw [hchild] at hc
      cases hc
      rfl
    | false =>
      rw [hchild] at hc
      cases hc
  obtain ⟨htake, hdrop⟩ := takeWhile_run h.blank hstop
  have hmark : readChild (childText parts.child) = (parts.child, []) := by
    cases parts.child <;> rfl
  rw [text_eq_conditionsText, List.append_assoc, read_eq_relate,
    readConditions_conditionsText h h.beginsGap, relate, trimStart, htake, hdrop, hmark]

/-- The parts without the white space at the end of their text. White space in front of `>` is not
at the end. -/
def ended (parts : Parts) : Parts :=
  if parts.child then parts else { parts with blank := [] }

/-- Only the text of the segment changes. -/
theorem segment_ended (parts : Parts) :
    parts.ended.segment = { parts.segment with selector := String.ofList parts.ended.text } := by
  unfold ended
  split <;> rfl

variable {parts : Parts}

theorem Valid.ended (h : parts.Valid) : parts.ended.Valid := by
  unfold Parts.ended
  split
  · exact h
  · exact { h with blank := by simp }

/-- Without `>`, the conditions are all that is left. -/
private theorem text_ended_of_child_eq_false (h : parts.child = false) :
    parts.ended.text = parts.conditionsText := by
  simp [ended, h, text_eq_conditionsText, conditionsText, childText]

/-- No white space is left at the end. -/
theorem Valid.endsInk_text_ended (h : parts.Valid) : EndsInk parts.ended.text := by
  cases hchild : parts.child with
  | true =>
    rw [Parts.ended, if_pos hchild, text_eq_conditionsText, hchild]
    exact .concat _ rfl
  | false =>
    rw [text_ended_of_child_eq_false hchild]
    exact h.endsIn_conditionsText (fun c hc ↦ isWhiteSpace_of_isTagChar hc) (by simp [isWhiteSpace])

/-- White space is all that is taken off. -/
theorem Valid.exists_text_eq (h : parts.Valid) :
    ∃ blank, Blank blank ∧ parts.text = parts.ended.text ++ blank := by
  cases hchild : parts.child with
  | true =>
    refine ⟨[], by simp [Blank], ?_⟩
    rw [Parts.ended, if_pos hchild, List.append_nil]
  | false =>
    refine ⟨parts.blank, h.blank, ?_⟩
    rw [text_ended_of_child_eq_false hchild, text_eq_conditionsText, hchild]
    exact List.append_nil _

/-- Trimming takes the white space off the end, when there is none in front. -/
theorem Valid.trim_text (h : parts.Valid) (hbegin : BeginsInk parts.text) :
    trim parts.text = parts.ended.text := by
  obtain ⟨blank, hblank, htext⟩ := h.exists_text_eq
  have hnone : Blank [] := by simp [Blank]
  have hfront : BeginsInk parts.ended.text := hbegin.front ⟨blank, htext.symm⟩
  rw [htext]
  exact trim_blank_around hnone hblank hfront h.endsInk_text_ended

/-- The text of a segment that begins with no white space is read as that segment alone. -/
theorem Valid.readAll_text (h : parts.Valid) (hbegin : BeginsInk parts.text)
    (hne : parts.text ≠ []) :
    Segment.readFirst parts.segment.selector = .ok parts.ended.segment ∧
      Segment.readAll parts.segment.selector = .ok [parts.ended.segment] := by
  have hread := h.ended.read_text
  have hsome : parts.ended.text ≠ [] := by
    intro hnil
    obtain ⟨blank, hblank, htext⟩ := h.exists_text_eq
    obtain ⟨c, rest, hcons⟩ := List.exists_cons_of_ne_nil hne
    rw [hnil, List.nil_append, hcons] at htext
    have hc : isWhiteSpace c = true := hblank c (by simp [← htext])
    rw [hbegin c rest hcons] at hc
    cases hc
  constructor
  · simp only [Segment.readFirst, toList_selector, h.trim_text hbegin, hread, if_neg hsome]
  · have hall : Reading.ofChars parts.ended.text = ⟨[parts.ended.segment], none⟩ := by
      rw [Reading.ofChars_of_trimStart_eq_nil (by rwa [hread]) (by rw [hread]; rfl), hread]
    rw [Segment.readAll, Reading.ofSelector, toList_selector, h.trim_text hbegin, hall]
    rfl

end Parts

/-! ## Segments -/

namespace Reading

/-- Every segment of a text that begins with no white space is read where no white space begins. -/
theorem exists_place_of_mem {text : List Char} {segment : Segment} (hbegin : BeginsInk text)
    (h : segment ∈ (ofChars text).segments) :
    ∃ place, BeginsInk place ∧ (Parts.read place).1.text ≠ [] ∧
      (Parts.read place).1.segment = segment := by
  fun_induction ofChars text with
  | case1 text cut hnothing => cases h
  | case2 text cut next hsome hlast =>
    rw [List.mem_singleton] at h
    exact ⟨text, hbegin, hsome, h.symm⟩
  | case3 text cut next hsome hmore later ih =>
    rcases List.mem_cons.mp h with hfirst | hlater
    · exact ⟨text, hbegin, hsome, hfirst.symm⟩
    · exact ih (beginsInk_trimStart cut.2) hlater

theorem mem_segments_of_items {reading : Reading} {segment : Segment}
    (h : .ok segment ∈ reading.items) : segment ∈ reading.segments := by
  rcases List.mem_append.mp h with hsegment | herror
  · obtain ⟨other, hother, heq⟩ := List.mem_map.mp hsegment
    cases heq
    exact hother
  · obtain ⟨error, -, heq⟩ := List.mem_map.mp herror
    cases heq

end Reading

namespace Cursor

/-- The segments that a cursor gives are those of the reading. -/
theorem mem_segments_of_pulls {selector : String} {count : Nat} {segment : Segment}
    (h : some (.ok segment) ∈ (ofSelector selector).pulls count) :
    segment ∈ (Reading.ofSelector selector).segments := by
  rw [pulls_ofSelector] at h
  obtain ⟨i, -, hi⟩ := List.mem_map.mp h
  exact Reading.mem_segments_of_items (List.mem_of_getElem? hi)

/-- A segment that a cursor gives is a function of its own text. Read alone, the text gives one
segment, which differs at most in the white space at the end of its text. -/
theorem readAll_selector_of_pulls {selector : String} {count : Nat} {segment : Segment}
    (h : some (.ok segment) ∈ (ofSelector selector).pulls count) :
    let alone : Segment :=
      { segment with selector := String.ofList (trimEnd segment.selector.toList) }
    Segment.readFirst segment.selector = .ok alone ∧
      Segment.readAll segment.selector = .ok [alone] := by
  obtain ⟨place, hbegin, hsome, rfl⟩ :=
    Reading.exists_place_of_mem (beginsInk_trim _) (mem_segments_of_pulls h)
  have hvalid := Parts.valid_read place
  have hink : BeginsInk (Parts.read place).1.text :=
    hbegin.front ⟨_, Parts.text_append_rest place⟩
  have hend : trimEnd (Parts.read place).1.text = (Parts.read place).1.ended.text := by
    rw [← hvalid.trim_text hink, trim, trimStart_of_beginsInk hink]
  rw [Parts.toList_selector, hend, ← Parts.segment_ended]
  exact hvalid.readAll_text hink hsome

/-- A segment with white space at its end, and one whose pseudo-class has parentheses without an
argument behind it, where reading gets stuck. -/
theorem readAll_selector_of_pulls_of_parentheses :
    let first : Segment := ⟨"a[x] \t ", "a", none, [], .ofList [("x", none)], none, false⟩
    let second : Segment := ⟨"b:c", "b", none, [], .empty, some ⟨"c", none⟩, false⟩
    (ofSelector " a[x] \t b:c()").pulls 3 =
        [some (.ok first), some (.ok second), some (.error (.invalidSelector "()"))] ∧
      Segment.readFirst first.selector = .ok { first with selector := "a[x]" } ∧
      Segment.readAll second.selector = .ok [second] := by
  intro first second
  have hpulls : (ofSelector " a[x] \t b:c()").pulls 3 =
      [some (.ok first), some (.ok second), some (.error (.invalidSelector "()"))] := by
    decide +kernel
  have hfirst := @readAll_selector_of_pulls _ _ first (hpulls ▸ List.mem_cons_self)
  have hsecond := @readAll_selector_of_pulls _ _ second
    (hpulls ▸ List.mem_cons_of_mem _ List.mem_cons_self)
  have htrimmed : String.ofList (trimEnd first.selector.toList) = "a[x]" := by decide +kernel
  have hsame : String.ofList (trimEnd second.selector.toList) = second.selector := by
    decide +kernel
  rw [htrimmed] at hfirst
  rw [hsame] at hsecond
  exact ⟨hpulls, hfirst.1, hsecond.2⟩

end Cursor

end SelectorCompiler
