import SelectorCompiler.Proofs.Selector.Tiling

/-!
# Reading anew after every segment

A selector can be read without keeping a place in it: read the segment at its front, take the text
of that segment off, trim what is left and begin again there. A cursor instead trims once and then
skips white space by itself. Both give the same items.

They agree because no reader looks at the text before its place, and because a trimmed text has no
white space at its end, so that trimming a rest at both ends takes off no more than skipping does.
-/

namespace SelectorCompiler

open Text

namespace Segment

/-- What is left of a text when the text of the segment at its front is taken off, trimmed. -/
def remainder (segment : Segment) (text : String) : String :=
  String.ofList (trim ((trim text.toList).drop segment.selector.length))

section ReadFirst

variable {text : String} {segment : Segment}

/-- The segment at the front of a text is the one of the parts that are read there. -/
theorem readFirst_eq_ok (h : readFirst text = .ok segment) :
    (Parts.read (trim text.toList)).1.text ≠ [] ∧
      segment = (Parts.read (trim text.toList)).1.segment := by
  rw [readFirst] at h
  split at h
  · cases h
  · next hsome => exact ⟨hsome, (Except.ok.inj h).symm⟩

/-- No segment is at the front of a text where no part is read. -/
theorem readFirst_eq_error {error : CompileError} (h : readFirst text = .error error) :
    (Parts.read (trim text.toList)).1.text = [] ∧
      error = .invalidSelector (String.ofList (trim text.toList)) := by
  rw [readFirst] at h
  split at h
  · next hnothing => exact ⟨hnothing, (Except.error.inj h).symm⟩
  · cases h

/-- The text of the first segment stands at the front of the trimmed text. -/
theorem selector_prefix_of_readFirst (h : readFirst text = .ok segment) :
    segment.selector.toList <+: trim text.toList := by
  rw [(readFirst_eq_ok h).2, Parts.toList_selector]
  exact ⟨_, Parts.text_append_rest _⟩

/-- Trimming the end of a rest changes nothing: what is left behind the first segment is the rest
without the white space it begins with. -/
theorem toList_remainder (h : readFirst text = .ok segment) :
    (segment.remainder text).toList = trimStart (Parts.read (trim text.toList)).2 := by
  have happend := Parts.text_append_rest (trim text.toList)
  have hdrop : (trim text.toList).drop segment.selector.length =
      (Parts.read (trim text.toList)).2 := by
    have hleft : ((Parts.read (trim text.toList)).1.text ++ (Parts.read (trim text.toList)).2).drop
        (Parts.read (trim text.toList)).1.text.length = (Parts.read (trim text.toList)).2 :=
      List.drop_left
    rwa [happend, ← Parts.toList_selector, ← (readFirst_eq_ok h).2, String.length_toList] at hleft
  have hend : EndsInk (Parts.read (trim text.toList)).2 :=
    (endsInk_trim text.toList).of_suffix ⟨_, happend⟩
  rw [remainder, String.toList_ofList, hdrop, trim_of_endsInk hend]

theorem length_remainder_lt (h : readFirst text = .ok segment) :
    (segment.remainder text).toList.length < text.toList.length := by
  have hrest := Parts.length_rest_lt (readFirst_eq_ok h).1
  have hstart := (trimStart_suffix (Parts.read (trim text.toList)).2).length_le
  have htrim := (trim_sublist text.toList).length_le
  rw [toList_remainder h]
  omega

end ReadFirst

/-- The items of a text, each read at the front of what the one before it has left. An error is the
last item, and so is a segment that leaves nothing. -/
def readAnew (text : String) : List (Except CompileError Segment) :=
  match _h : readFirst text with
  | .error error => [.error error]
  | .ok segment =>
    if segment.remainder text = "" then [.ok segment]
    else .ok segment :: readAnew (segment.remainder text)
termination_by text.toList.length
decreasing_by exact length_remainder_lt _h

end Segment

/-- Reading goes on behind a segment as it begins with what the segment leaves. -/
private theorem Reading.ofSelector_remainder {text : String} {segment : Segment}
    (h : Segment.readFirst text = .ok segment) :
    ofSelector (segment.remainder text) = ofChars (trimStart (Parts.read (trim text.toList)).2) := by
  have htrimmed : trim (segment.remainder text).toList = (segment.remainder text).toList := by
    rw [Segment.remainder, String.toList_ofList, trim_trim]
  rw [ofSelector, htrimmed, Segment.toList_remainder h]

/-- A reading has the items that are read anew after every segment. -/
theorem Reading.items_eq_readAnew (selector : String) :
    (ofSelector selector).items = Segment.readAnew selector := by
  fun_induction Segment.readAnew selector with
  | case1 text error herror =>
    rcases Segment.readFirst_eq_error herror with ⟨hnothing, rfl⟩
    rw [ofSelector, ofChars_of_text_eq_nil hnothing]
    rfl
  | case2 text segment hsegment hlast =>
    rcases Segment.readFirst_eq_ok hsegment with ⟨hsome, rfl⟩
    have hnil : trimStart (Parts.read (trim text.toList)).2 = [] := by
      rw [← Segment.toList_remainder hsegment, hlast]
      rfl
    rw [ofSelector, ofChars_of_trimStart_eq_nil hsome hnil]
    rfl
  | case3 text segment hsegment hmore ih =>
    rw [← ih, Reading.ofSelector_remainder hsegment]
    rcases Segment.readFirst_eq_ok hsegment with ⟨hsome, rfl⟩
    have hne : trimStart (Parts.read (trim text.toList)).2 ≠ [] := by
      rw [← Segment.toList_remainder hsegment]
      simpa using hmore
    rw [ofSelector, ofChars_of_trimStart_ne_nil hsome hne]
    rfl

namespace Cursor

/-- Asked again and again, the cursor of a selector gives the items that are read anew after every
segment, and then nothing. What is taken off after each segment is its own text, at the front of
what was left. -/
theorem pulls_eq_readAnew (selector : String) :
    (∀ count, (ofSelector selector).pulls count =
      (List.range count).map fun i ↦ (Segment.readAnew selector)[i]?) ∧
    ∀ text segment, Segment.readFirst text = .ok segment →
      segment.selector.toList <+: trim text.toList := by
  refine ⟨?_, fun text segment h ↦ Segment.selector_prefix_of_readFirst h⟩
  intro count
  rw [pulls_ofSelector, Reading.items_eq_readAnew]

/-- White space around, between and behind two segments, and a bracket that is never closed. -/
theorem pulls_eq_readAnew_of_bracket :
    Segment.readFirst " a >  b [" = .ok ⟨"a >", "a", none, [], .empty, none, true⟩ ∧
      "a >".toList <+: trim " a >  b [".toList ∧
      (ofSelector " a >  b [").pulls 3 =
        (List.range 3).map fun i ↦ (Segment.readAnew " a >  b [")[i]? := by
  have hfirst : Segment.readFirst " a >  b [" =
      .ok ⟨"a >", "a", none, [], .empty, none, true⟩ := by
    decide +kernel
  exact ⟨hfirst, (pulls_eq_readAnew " a >  b [").2 _ _ hfirst, (pulls_eq_readAnew _).1 3⟩

end Cursor

end SelectorCompiler
