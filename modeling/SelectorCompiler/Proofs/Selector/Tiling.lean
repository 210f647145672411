import SelectorCompiler.Proofs.Selector.Parts
import SelectorCompiler.Proofs.Selector.Reading
import SelectorCompiler.Selector.Cursor

/-!
# Segments tile a selector

The texts of the segments of a selector, with the white space skipped after some of them and the
rest at which reading got stuck, make up the trimmed selector. A cursor gives these segments one by
one, then the error, and then nothing.

White space is taken in three places: around the selector, in front of `>`, and after it. The
texts do not overlap because each reader hands its rest to the next one; `Parts.beginsInk_rest` says
that only a segment with `>` leaves white space behind.
-/

namespace SelectorCompiler

open Text

/-! ## The two ends of a segment -/

private theorem readChild_snd {text : List Char} (h : (readChild text).1 = false) :
    (readChild text).2 = text := by
  have happend := childText_append_rest text
  rwa [h, childText, if_neg (by decide), List.nil_append] at happend

/-- A segment without `>` leaves no white space behind. -/
theorem Parts.beginsInk_rest {text : List Char} (h : (Parts.read text).1.child = false) :
    BeginsInk (Parts.read text).2 := by
  change (readChild _).1 = false at h
  change BeginsInk (readChild _).2
  rw [readChild_snd h]
  exact beginsInk_trimStart _

/-- A segment is followed by a child exactly when its text ends with `>`. -/
theorem Parts.Valid.child_iff {parts : Parts} (h : parts.Valid) :
    parts.child = true ↔ parts.text.getLast? = some '>' := by
  have hconditions : EndsIn (· ≠ '>') (parts.conditionsText ++ parts.blank) := by
    refine .append (h.endsIn_conditionsText ?_ (by simp)) (.of_forall ?_)
    · rintro c hc rfl
      exact absurd hc (by decide)
    · rintro c hc rfl
      exact absurd (h.blank '>' hc) (by decide)
  rw [Parts.text_eq_conditionsText]
  cases parts.child with
  | true => simp [childText]
  | false =>
    rw [childText, if_neg (by decide), List.append_nil]
    constructor
    · intro hfalse
      cases hfalse
    · intro hlast
      exact absurd rfl (hconditions '>' hlast)

/-! ## Tiles -/

/-- The text of a segment and the white space skipped after it. -/
def tileText (tile : Segment × List Char) : List Char :=
  tile.1.selector.toList ++ tile.2

/-- The segments of a reading, each with the white space skipped after it, and the rest make up a
text. -/
structure Tiling (text : List Char) (reading : Reading) (tiles : List (Segment × List Char))
    (rest : List Char) : Prop where
  /-- The tiles are the segments in order. -/
  segments : tiles.map Prod.fst = reading.segments
  /-- Nothing is lost and nothing is read twice. -/
  text : text = tiles.flatMap tileText ++ rest
  /-- No segment is empty. -/
  nonempty : ∀ tile ∈ tiles, tile.1.selector ≠ ""
  /-- No segment begins with white space. -/
  ink : ∀ tile ∈ tiles, BeginsInk tile.1.selector.toList
  /-- White space only is skipped. -/
  blank : ∀ tile ∈ tiles, ∀ c ∈ tile.2, isWhiteSpace c = true
  /-- It is skipped only after `>`. -/
  skipped : ∀ tile ∈ tiles, tile.2 ≠ [] → tile.1.child = true
  /-- The reading has no error exactly when there is no rest. -/
  finished : reading.error? = none ↔ rest = []
  /-- Without a rest there is a last segment, and nothing is skipped after it. -/
  last : rest = [] → ∃ earlier segment, tiles = earlier ++ [(segment, [])]
  /-- The error shows the rest. -/
  stuck : rest ≠ [] → reading.error? = some (.invalidSelector (String.ofList rest))

/-- The first segment of a text and the white space after it form a tile. -/
private theorem tile_read {text : List Char} (hbegin : BeginsInk text)
    (hsome : (Parts.read text).1.text ≠ []) {skipped : List Char}
    (hskipped : skipped = (Parts.read text).2.takeWhile isWhiteSpace) :
    (Parts.read text).1.segment.selector ≠ "" ∧
      BeginsInk (Parts.read text).1.segment.selector.toList ∧
      (∀ c ∈ skipped, isWhiteSpace c = true) ∧
      (skipped ≠ [] → (Parts.read text).1.segment.child = true) := by
  refine ⟨?_, ?_, ?_, ?_⟩
  · intro hempty
    rw [← Parts.toList_selector, hempty] at hsome
    exact hsome rfl
  · rw [Parts.toList_selector]
    exact hbegin.front ⟨_, Parts.text_append_rest text⟩
  · intro c hc
    rw [hskipped] at hc
    exact List.mem_takeWhile_imp hc
  · intro hne
    by_contra hchild
    have hink := Parts.beginsInk_rest (Bool.eq_false_iff.mpr hchild)
    cases hrest : (Parts.read text).2 with
    | nil =>
      rw [hskipped, hrest] at hne
      exact hne rfl
    | cons c rest =>
      rw [hskipped, hrest, List.takeWhile_cons_of_neg (by simp [hink c rest hrest])] at hne
      exact hne rfl

private theorem Tiling.nothing {text : List Char} (hne : text ≠ []) :
    Tiling text ⟨[], some (String.ofList text)⟩ [] text where
  segments := rfl
  text := rfl
  nonempty := by simp
  ink := by simp
  blank := by simp
  skipped := by simp
  finished := by simp [Reading.error?, hne]
  last hnil := absurd hnil hne
  stuck _ := rfl

private theorem Tiling.one {segment : Segment} (hne : segment.selector ≠ "")
    (hink : BeginsInk segment.selector.toList) :
    Tiling segment.selector.toList ⟨[segment], none⟩ [(segment, [])] [] where
  segments := rfl
  text := by simp [tileText]
  nonempty := by simpa using hne
  ink := by simpa using hink
  blank := by simp
  skipped := by simp
  finished := by simp [Reading.error?]
  last _ := ⟨[], segment, rfl⟩
  stuck hne := absurd rfl hne

private theorem Tiling.cons {later : List Char} {reading : Reading}
    {tiles : List (Segment × List Char)} {rest : List Char} (h : Tiling later reading tiles rest)
    {segment : Segment} {skipped : List Char} (hne : segment.selector ≠ "")
    (hink : BeginsInk segment.selector.toList) (hblank : ∀ c ∈ skipped, isWhiteSpace c = true)
    (hskipped : skipped ≠ [] → segment.child = true) :
    Tiling (segment.selector.toList ++ (skipped ++ later))
      ⟨segment :: reading.segments, reading.stuck⟩ ((segment, skipped) :: tiles) rest where
  segments := by rw [List.map_cons, h.segments]
  text := by rw [List.flatMap_cons, tileText, List.append_assoc, List.append_assoc, ← h.text]
  nonempty := List.forall_mem_cons.mpr ⟨hne, h.nonempty⟩
  ink := List.forall_mem_cons.mpr ⟨hink, h.ink⟩
  blank := List.forall_mem_cons.mpr ⟨hblank, h.blank⟩
  skipped := List.forall_mem_cons.mpr ⟨hskipped, h.skipped⟩
  finished := h.finished
  last hnil := by
    rcases h.last hnil with ⟨earlier, final, rfl⟩
    exact ⟨(segment, skipped) :: earlier, final, rfl⟩
  stuck := h.stuck

namespace Reading

/-- The segments of a text without white space at its ends tile it. -/
private theorem exists_tiling {text : List Char} (hbegin : BeginsInk text) (hend : EndsInk text)
    (hne : text ≠ []) : ∃ tiles rest, Tiling text (ofChars text) tiles rest := by
  fun_induction ofChars text with
  | case1 text cut hnothing => exact ⟨[], text, .nothing hne⟩
  | case2 text cut next hsome hlast =>
    have hsuffix : cut.2 <:+ text := ⟨_, Parts.text_append_rest text⟩
    have hrest : cut.2 = [] :=
      EndsInk.eq_nil_of_blank (hend.of_suffix hsuffix) (trimStart_eq_nil_iff.mp hlast)
    have htile := tile_read hbegin hsome rfl
    have htext : cut.1.segment.selector.toList = text := by
      rw [Parts.toList_selector, ← List.append_nil cut.1.text, ← hrest]
      exact Parts.text_append_rest text
    refine ⟨[(cut.1.segment, [])], [], ?_⟩
    have hone := Tiling.one htile.1 htile.2.1
    rwa [htext] at hone
  | case3 text cut next hsome hmore later ih =>
    have hnext : next <:+ text := (trimStart_suffix cut.2).trans ⟨_, Parts.text_append_rest text⟩
    rcases ih (beginsInk_trimStart cut.2) (hend.of_suffix hnext) hmore with ⟨tiles, rest, htiles⟩
    rcases tile_read hbegin hsome rfl with ⟨hselector, hink, hblank, hskipped⟩
    refine ⟨(cut.1.segment, cut.2.takeWhile isWhiteSpace) :: tiles, rest, ?_⟩
    have htext : text =
        cut.1.segment.selector.toList ++ (cut.2.takeWhile isWhiteSpace ++ next) := by
      rw [takeWhile_append_trimStart, Parts.toList_selector]
      exact (Parts.text_append_rest text).symm
    have hcons := htiles.cons hselector hink hblank hskipped
    rwa [← htext] at hcons

/-- There are at most as many segments as characters. -/
private theorem length_segments_le (text : List Char) :
    (ofChars text).segments.length ≤ text.length := by
  fun_induction ofChars text with
  | case1 text cut hnothing => exact Nat.zero_le _
  | case2 text cut next hsome hlast =>
    have hlt := Parts.length_rest_lt hsome
    change 1 ≤ text.length
    omega
  | case3 text cut next hsome hmore later ih =>
    have hlater : later.segments.length ≤ next.length := ih
    have hnext : next.length ≤ cut.2.length := (trimStart_suffix cut.2).length_le
    have hrest : cut.2.length < text.length := Parts.length_rest_lt hsome
    change later.segments.length + 1 ≤ text.length
    omega

end Reading

/-! ## Cursors -/

namespace Cursor

/-- The items that a cursor has left. -/
private def items (cursor : Cursor) : List (Except CompileError Segment) :=
  if cursor.done then [] else (Reading.ofChars cursor.rest).items

private theorem items_of_done {cursor : Cursor} (h : cursor.done = true) : cursor.items = [] := by
  rw [items, if_pos h]

/-- A cursor gives the first of its items and keeps the others. -/
private theorem next_items (cursor : Cursor) :
    cursor.next.1 = cursor.items.head? ∧ cursor.next.2.items = cursor.items.tail := by
  by_cases hdone : cursor.done = true
  · rw [next, if_pos hdone, items_of_done hdone]
    exact ⟨rfl, rfl⟩
  · rw [next, if_neg hdone, items, if_neg hdone]
    by_cases hnothing : (Parts.read cursor.rest).1.text = []
    · simp only [hnothing, if_true]
      rw [Reading.ofChars_of_text_eq_nil hnothing]
      exact ⟨rfl, items_of_done rfl⟩
    · simp only [hnothing, if_false]
      by_cases hlast : trimStart (Parts.read cursor.rest).2 = []
      · rw [Reading.ofChars_of_trimStart_eq_nil hnothing hlast, hlast]
        exact ⟨rfl, items_of_done rfl⟩
      · rw [Reading.ofChars_of_trimStart_ne_nil hnothing hlast]
        refine ⟨rfl, ?_⟩
        rw [items, if_neg (by simp [done, hlast])]
        rfl

private theorem pulls_eq_items (cursor : Cursor) (count : Nat) :
    cursor.pulls count = (List.range count).map fun i ↦ cursor.items[i]? := by
  induction count generalizing cursor with
  | zero => rfl
  | succ count ih =>
    rw [pulls, ih, (next_items cursor).1, (next_items cursor).2, List.range_succ_eq_map,
      List.map_cons, List.map_map]
    congr 1
    · rw [List.head?_eq_getElem?]
    · apply List.map_congr_left
      intro i _
      rw [List.getElem?_tail]
      rfl

/-- A cursor gives the items of the reading, and nothing after them. -/
theorem pulls_ofSelector (selector : String) (count : Nat) :
    (ofSelector selector).pulls count =
      (List.range count).map fun i ↦ (Reading.ofSelector selector).items[i]? :=
  pulls_eq_items (ofSelector selector) count

/-- Asked again and again, the cursor of a selector gives segments, then possibly one error, then
nothing. A blank selector has no segment and one error. The segments of any other selector tile it,
up to the place where reading got stuck, which the error shows. A segment is followed by a child
exactly when its text ends with `>`. -/
theorem pulls_tile (selector : String) :
    (∀ count, (ofSelector selector).pulls count = (List.range count).map fun i ↦
      ((Reading.ofSelector selector).segments.map Except.ok ++
        (Reading.ofSelector selector).error?.toList.map Except.error)[i]?) ∧
    (Reading.ofSelector selector).segments.length ≤ (trim selector.toList).length ∧
    (trim selector.toList = [] →
      (Reading.ofSelector selector).segments = [] ∧
        (Reading.ofSelector selector).error? = some (.invalidSelector "")) ∧
    (trim selector.toList ≠ [] →
      ∃ tiles rest, Tiling (trim selector.toList) (Reading.ofSelector selector) tiles rest) ∧
    ∀ segment ∈ (Reading.ofSelector selector).segments,
      segment.child = true ↔ segment.selector.toList.getLast? = some '>' := by
  refine ⟨pulls_ofSelector selector, Reading.length_segments_le _, ?_, ?_, ?_⟩
  · intro hnil
    rw [Reading.ofSelector, hnil, Reading.ofChars_nil]
    exact ⟨rfl, rfl⟩
  · intro hne
    exact Reading.exists_tiling (beginsInk_trim _) (endsInk_trim _) hne
  · intro segment hmem
    rcases Reading.exists_parts_of_mem hmem with ⟨parts, hvalid, rfl⟩
    rw [Parts.toList_selector]
    exact hvalid.child_iff

/-- White space in all three places, and a rest that no segment begins. -/
theorem pulls_tile_of_stuck :
    trim " a >  b.x ~".toList ≠ [] ∧
      ∃ tiles rest,
        Tiling (trim " a >  b.x ~".toList) (Reading.ofSelector " a >  b.x ~") tiles rest :=
  ⟨by decide, (pulls_tile " a >  b.x ~").2.2.2.1 (by decide)⟩

end Cursor

end SelectorCompiler
