import SelectorCompiler.Proofs.Selector.Locality
import SelectorCompiler.Proofs.Selector.WellFormed

/-!
# Written chains

`Segment.write` gives a segment a text of its own, and `Segment.writeAll` a chain of segments.
Reading gives well-formed segments only, and it finds every chain of well-formed segments in its
written text. So the results of reading are exactly the well-formed chains, and writing is a right
inverse of reading, the texts of the segments aside.

A written part is read as it was written because no reader can go on into the part after it:
`Parts.readConditions_conditionsText` says so for all parts of a segment at once.
-/

namespace SelectorCompiler

open Text

/-! ## Readers on written parts -/

section Readers

variable {fits : Char → Bool} {rest : List Char}

/-- A text stops a class when both of its halves do. -/
theorem Text.StopsAt.append {front : List Char} (hfront : StopsAt fits front)
    (hrest : StopsAt fits rest) : StopsAt fits (front ++ rest) := by
  cases front with
  | nil => exact hrest
  | cons c front => exact hfront

/-- A mark stops a class that it does not belong to. -/
theorem stopsAt_markedText {mark : Char} (h : fits mark = false) (run : Option (List Char)) :
    StopsAt fits (markedText mark run) := by
  intro c hc
  cases run with
  | none => cases hc
  | some run =>
    cases hc
    exact h

theorem stopsAt_clauses (h : fits '[' = false) (clauses : List (List Char)) :
    StopsAt fits (clauses.flatMap clauseText) := by
  intro c hc
  cases clauses with
  | nil => cases hc
  | cons body clauses =>
    cases hc
    exact h

theorem stopsAt_pseudoText (h : fits ':' = false)
    (pseudo : Option (List Char × Option (List Char))) : StopsAt fits (pseudoText pseudo) := by
  intro c hc
  cases pseudo with
  | none => cases hc
  | some pseudo =>
    cases hc
    exact h

/-- A text that stops the class of a single character does not begin with it. -/
private theorem Text.StopsAt.head?_ne {c : Char} (h : StopsAt (· == c) rest) :
    rest.head? ≠ some c := by
  intro hhead
  simpa using h c hhead

/-- A marked run is read as it was written. -/
theorem readMarked_markedText {mark : Char} {run : Option (List Char)}
    (hrun : ∀ text, run = some text → text ≠ [] ∧ ∀ c ∈ text, fits c = true)
    (hfits : StopsAt fits rest) (hmark : StopsAt (· == mark) rest) :
    readMarked mark fits (markedText mark run ++ rest) = (run, rest) := by
  cases run with
  | none => exact readMarked_of_head?_ne hmark.head?_ne
  | some text =>
    obtain ⟨hne, hchars⟩ := hrun text rfl
    obtain ⟨htake, hdrop⟩ := takeWhile_run hchars hfits
    change readMarked mark fits (mark :: (text ++ rest)) = _
    rw [readMarked, if_pos rfl, htake, hdrop]
    cases text with
    | nil => exact absurd rfl hne
    | cons c text => rfl

/-- Clauses are read as they were written. -/
theorem readClauses_clauseText {clauses : List (List Char)}
    (hclauses : ∀ body ∈ clauses, ']' ∉ body) (hrest : StopsAt (· == '[') rest) :
    readClauses (clauses.flatMap clauseText ++ rest) = (clauses, rest) := by
  induction clauses with
  | nil => exact readClauses_of_head?_ne hrest.head?_ne
  | cons body clauses ih =>
    obtain ⟨hbody, hclauses⟩ := List.forall_mem_cons.mp hclauses
    have htext : (body :: clauses).flatMap clauseText ++ rest =
        '[' :: (body ++ ']' :: (clauses.flatMap clauseText ++ rest)) := by
      simp [clauseText]
    rw [htext, readClauses_clause hbody, ih hclauses]

/-- A pseudo-class is read as it was written. -/
theorem readPseudo_pseudoText {pseudo : Option (List Char × Option (List Char))}
    (hname : ∀ name argument, pseudo = some (name, argument) → ∀ c ∈ name, isPseudoChar c = true)
    (hargument : ∀ name body, pseudo = some (name, some body) → body ≠ [] ∧ ')' ∉ body)
    (hrest : BeginsGap rest) : readPseudo (pseudoText pseudo ++ rest) = (pseudo, rest) := by
  match pseudo with
  | none => exact readPseudo_of_head?_ne (hrest.head?_ne (by decide) (by decide))
  | some (name, none) =>
    obtain ⟨htake, hdrop⟩ := takeWhile_run (hname name none rfl) hrest.stopsAt_pseudo
    have htext : pseudoText (some (name, none)) ++ rest = ':' :: (name ++ rest) := by
      simp [pseudoText, argumentText]
    rw [htext, readPseudo_colon, htake, hdrop,
      readArgument_of_head?_ne (hrest.head?_ne (by decide) (by decide))]
  | some (name, some body) =>
    have hopen : StopsAt isPseudoChar ('(' :: (body ++ ')' :: rest)) := by
      intro c hc
      cases hc
      decide
    obtain ⟨htake, hdrop⟩ := takeWhile_run (hname name (some body) rfl) hopen
    obtain ⟨hne, hclose⟩ := hargument name body rfl
    have htext : pseudoText (some (name, some body)) ++ rest =
        ':' :: (name ++ '(' :: (body ++ ')' :: rest)) := by
      simp [pseudoText, argumentText]
    rw [htext, readPseudo_colon, htake, hdrop, readArgument_argument hne hclose]

/-- In front of a gap, valid conditions are read as they were written. -/
theorem Parts.readConditions_conditionsText {parts : Parts} (h : parts.Valid)
    (hgap : BeginsGap rest) :
    readConditions (parts.conditionsText ++ rest) =
      ({ parts with blank := [], child := false }, rest) := by
  -- What stands in front of each reader, and where no reader before it goes on.
  have hpseudo : ∀ {fits : Char → Bool}, fits ':' = false → StopsAt fits rest →
      StopsAt fits (pseudoText parts.pseudo ++ rest) := fun hcolon hstop ↦
    (stopsAt_pseudoText hcolon _).append hstop
  have hclauses : ∀ {fits : Char → Bool}, fits '[' = false → fits ':' = false →
      StopsAt fits rest →
      StopsAt fits (parts.clauses.flatMap clauseText ++ (pseudoText parts.pseudo ++ rest)) :=
    fun hbracket hcolon hstop ↦ (stopsAt_clauses hbracket _).append (hpseudo hcolon hstop)
  have hclasses : ∀ {fits : Char → Bool}, fits '.' = false → fits '[' = false →
      fits ':' = false → StopsAt fits rest →
      StopsAt fits (markedText '.' parts.classes ++
        (parts.clauses.flatMap clauseText ++ (pseudoText parts.pseudo ++ rest))) :=
    fun hdot hbracket hcolon hstop ↦
      (stopsAt_markedText hdot _).append (hclauses hbracket hcolon hstop)
  have hmark : ∀ {c : Char}, isWhiteSpace c = false → c ≠ '>' → StopsAt (· == c) rest := by
    intro c hwhite hne d hd
    simp only [beq_eq_false_iff_ne, ne_eq]
    rintro rfl
    exact hgap.head?_ne hwhite hne hd
  have hid : StopsAt isTagChar (markedText '#' parts.id) := stopsAt_markedText rfl parts.id
  obtain ⟨htake, hdrop⟩ :=
    takeWhile_run h.tag (hid.append (hclasses rfl rfl rfl hgap.stopsAt_tag))
  have htext : parts.conditionsText ++ rest =
      parts.tag ++ (markedText '#' parts.id ++ (markedText '.' parts.classes ++
        (parts.clauses.flatMap clauseText ++ (pseudoText parts.pseudo ++ rest)))) := by
    simp only [conditionsText, List.append_assoc]
  rw [htext]
  simp only [readConditions, htake, hdrop, readId, readClasses]
  rw [readMarked_markedText h.id (hclasses rfl rfl rfl hgap.stopsAt_id)
      (hclasses rfl rfl rfl (hmark rfl (by decide))),
    readMarked_markedText h.classes (hclauses rfl rfl hgap.stopsAt_class)
      (hclauses rfl rfl (hmark rfl (by decide))),
    readClauses_clauseText h.clauses (hpseudo rfl (hmark rfl (by decide))),
    readPseudo_pseudoText h.name h.argument hgap]

end Readers

/-! ## Writing -/

/-- The clause of an attribute; one without a value has no text after `=`. -/
def writeAttribute (entry : String × Option String) : List Char :=
  '[' :: (entry.1.toList ++ '=' :: ((entry.2.getD "").toList ++ [']']))

/-- A pseudo-class with its colon, and with its argument if there is one. -/
def PseudoClass.write (pseudo : PseudoClass) : List Char :=
  ':' :: (pseudo.name.toList ++
    pseudo.expression.elim [] fun text ↦ '(' :: (text.toList ++ [')']))

/-- The mark of a child behind a space. -/
def relationText (child : Bool) : List Char :=
  if child then [' ', '>'] else []

/-- The tag, the id, the classes, the attributes, the pseudo-class and the `>` of a segment. -/
def Segment.write (segment : Segment) : List Char :=
  segment.tag.toList ++ (segment.id.elim [] fun id ↦ '#' :: id.toList) ++
    segment.classes.flatMap (fun name ↦ '.' :: name.toList) ++
    segment.attributes.entries.flatMap writeAttribute ++
    segment.pseudo.elim [] PseudoClass.write ++ relationText segment.child

/-- The segments of a chain with spaces between them. -/
def Segment.writeAll (segments : List Segment) : String :=
  String.ofList ([' '].intercalate (segments.map Segment.write))

/-- The segment without its text. -/
def Segment.bare (segment : Segment) : Segment :=
  { segment with selector := "" }

/-! ## The parts of a written segment -/

/-- The run of the classes of a segment. -/
private def classRun (names : List String) : Option (List Char) :=
  if names = [] then none else some (['.'].intercalate (names.map String.toList))

/-- The parts of a segment that its conditions are written from. -/
def Segment.parts (segment : Segment) : Parts where
  tag := segment.tag.toList
  id := segment.id.map String.toList
  classes := classRun segment.classes
  clauses := segment.attributes.entries.map fun entry ↦
    entry.1.toList ++ '=' :: (entry.2.getD "").toList
  pseudo := segment.pseudo.map fun pseudo ↦
    (pseudo.name.toList, pseudo.expression.map String.toList)
  blank := []
  child := false

private theorem markedText_classRun (names : List String) :
    markedText '.' (classRun names) = names.flatMap fun name ↦ '.' :: name.toList := by
  cases names with
  | nil => rfl
  | cons first names =>
    change '.' :: ['.'].intercalate (first.toList :: names.map String.toList) = _
    induction names generalizing first with
    | nil => simp
    | cons second names ih =>
      rw [List.map_cons, List.intercalate_cons_cons, List.flatMap_cons, ← ih second]
      simp

theorem Segment.write_eq_conditionsText (segment : Segment) :
    segment.write = segment.parts.conditionsText ++ relationText segment.child := by
  have hid : markedText '#' (segment.id.map String.toList) =
      segment.id.elim [] fun id ↦ '#' :: id.toList := by
    cases segment.id <;> rfl
  have hclauses : segment.parts.clauses.flatMap clauseText =
      segment.attributes.entries.flatMap writeAttribute := by
    simp only [parts, List.flatMap_map, clauseText, List.append_assoc, List.cons_append]
    rfl
  have hpseudo : pseudoText segment.parts.pseudo =
      segment.pseudo.elim [] PseudoClass.write := by
    unfold parts
    cases segment.pseudo with
    | none => rfl
    | some pseudo =>
      obtain ⟨name, expression⟩ := pseudo
      cases expression <;> rfl
  rw [Parts.conditionsText, hclauses, hpseudo]
  simp only [parts, hid, markedText_classRun]
  rfl

/-- Only the relation of a segment changes when it is continued. -/
private theorem Parts.bare_segment_extend (parts : Parts) (gap : List Char) :
    (parts.extend gap).1.segment.bare =
      { parts.segment.bare with child := (parts.extend gap).1.child } := by
  unfold extend
  split <;> rfl

private theorem Parts.tag_extend (parts : Parts) (gap : List Char) :
    (parts.extend gap).1.tag = parts.tag := by
  unfold extend
  split <;> rfl

private theorem Parts.text_ne_nil_of_tag {parts : Parts} (h : parts.tag ≠ []) :
    parts.text ≠ [] := by
  intro hnil
  simp only [Parts.text, List.append_eq_nil_iff] at hnil
  exact h hnil.1.1.1.1.1.1

namespace Segment.WellFormed

variable {segment : Segment}

/-- The parts of a well-formed segment are valid. -/
theorem valid_parts (h : segment.WellFormed) : segment.parts.Valid where
  tag := h.tag.2
  id := by
    intro run hrun
    obtain ⟨id, hid, rfl⟩ := Option.map_eq_some_iff.mp hrun
    exact ⟨by simpa using (h.id id hid).1, (h.id id hid).2⟩
  classes := by
    intro run hrun
    have htext := markedText_classRun segment.classes
    change classRun segment.classes = some run at hrun
    rw [hrun] at htext
    have hchars : ∀ c ∈ run, isClassChar c = true := by
      intro c hc
      have hmem : c ∈ '.' :: run := List.mem_cons_of_mem _ hc
      rw [show '.' :: run = _ from htext] at hmem
      obtain ⟨name, hname, hc⟩ := List.mem_flatMap.mp hmem
      rcases List.mem_cons.mp hc with rfl | hc
      · decide
      · simp [isClassChar, (h.classes name hname).2 c hc]
    refine ⟨?_, hchars⟩
    rintro rfl
    cases hclasses : segment.classes with
    | nil =>
      rw [hclasses] at htext
      cases htext
    | cons first names =>
      have hfirst := (h.classes first (by simp [hclasses])).1
      rw [hclasses] at htext
      simp [markedText, hfirst] at htext
  clauses := by
    intro body hbody
    obtain ⟨entry, hentry, rfl⟩ := List.mem_map.mp hbody
    have hvalue : ']' ∉ (entry.2.getD "").toList := by
      cases hsome : entry.2 with
      | none => simp
      | some value => exact (h.values entry hentry value hsome).2.2
    simp [(h.names entry hentry).2, hvalue]
  name := by
    intro name argument hpseudo
    obtain ⟨pseudo, hsome, heq⟩ := Option.map_eq_some_iff.mp hpseudo
    cases heq
    exact (h.pseudo pseudo hsome).name.2
  argument := by
    intro name body hpseudo
    obtain ⟨pseudo, hsome, heq⟩ := Option.map_eq_some_iff.mp hpseudo
    obtain ⟨_, hargument⟩ := Prod.mk.inj heq
    obtain ⟨text, htext, rfl⟩ := Option.map_eq_some_iff.mp hargument
    obtain ⟨hne, hclose⟩ := (h.pseudo pseudo hsome).expression text htext
    exact ⟨by simpa using hne, hclose⟩
  blank := by simp [parts]

/-- The names of the classes are found again between the dots. -/
private theorem classNames_classRun (h : segment.WellFormed) :
    ((classRun segment.classes).map classNames).getD [] = segment.classes := by
  unfold classRun
  split
  · next hnil => exact hnil.symm
  · next hne =>
    have hdots : ∀ name ∈ segment.classes.map String.toList, '.' ∉ name := by
      intro name hname hdot
      obtain ⟨original, horiginal, rfl⟩ := List.mem_map.mp hname
      exact absurd ((h.classes original horiginal).2 '.' hdot) (by decide)
    have hfilter : (segment.classes.map String.toList).filter (fun name ↦ !name.isEmpty) =
        segment.classes.map String.toList := by
      rw [List.filter_eq_self]
      intro name hname
      obtain ⟨original, horiginal, rfl⟩ := List.mem_map.mp hname
      simpa using (h.classes original horiginal).1
    change classNames _ = _
    rw [classNames, List.splitOn_intercalate '.' hdots (by simpa using hne), hfilter, List.map_map]
    exact List.map_id'' (fun name ↦ String.ofList_toList) _

/-- The clause of an attribute asks for it. -/
private theorem attribute?_clause {entry : String × Option String} (hname : '=' ∉ entry.1.toList)
    (hvalue : ∀ value, entry.2 = some value → value ≠ "" ∧ '=' ∉ value.toList) :
    attribute? (entry.1.toList ++ '=' :: (entry.2.getD "").toList) = some entry := by
  obtain ⟨name, value⟩ := entry
  have plain {text : List Char} (h : '=' ∉ text) : ∀ c ∈ text, (c != '=') = true := by
    intro c hc
    simp only [bne_iff_ne, ne_eq]
    rintro rfl
    exact h hc
  have hstop {text : List Char} : StopsAt (· != '=') ('=' :: text) := by
    intro c hc
    cases hc
    rfl
  obtain ⟨htake, hdrop⟩ := takeWhile_run (plain hname) (@hstop (value.getD "").toList)
  unfold attribute?
  rw [if_neg (by simp), htake, hdrop, String.ofList_toList]
  cases value with
  | none => rfl
  | some text =>
    obtain ⟨hne, hequal⟩ := hvalue text rfl
    have htext : (text.toList).takeWhile (· != '=') = text.toList :=
      List.takeWhile_eq_self_iff.mpr (plain hequal)
    simp only [Option.getD_some, List.drop_one, List.tail_cons, htext, String.ofList_toList]
    rw [if_neg (by simpa using hne)]

private theorem map_ofList_map_toList (text : Option String) :
    (text.map String.toList).map String.ofList = text := by
  cases text with
  | none => rfl
  | some text => simp

/-- The parts of a well-formed segment describe it, its text and its relation aside. -/
theorem bare_segment_parts (h : segment.WellFormed) :
    segment.parts.segment.bare = { segment.bare with child := false } := by
  have htag : segment.parts.segment.tag = segment.tag := by
    change (if segment.tag.toList.isEmpty then _ else String.ofList segment.tag.toList) = _
    rw [if_neg (by simpa using h.tag.1), String.ofList_toList]
  have hid : segment.parts.segment.id = segment.id := map_ofList_map_toList segment.id
  have hattributes : segment.parts.segment.attributes = segment.attributes := by
    change OrderedMap.ofList ((segment.attributes.entries.map _).filterMap attribute?) = _
    have hall : ∀ entry ∈ segment.attributes.entries,
        (attribute? ∘ fun entry ↦ entry.1.toList ++ '=' :: (entry.2.getD "").toList) entry =
          some entry := by
      intro entry hentry
      exact attribute?_clause (h.names entry hentry).1 fun value hvalue ↦
        ⟨(h.values entry hentry value hvalue).1, (h.values entry hentry value hvalue).2.1⟩
    rw [List.filterMap_map, List.filterMap_congr hall, List.filterMap_some,
      OrderedMap.ofList_entries]
  have hpseudo : segment.parts.segment.pseudo = segment.pseudo := by
    change (segment.pseudo.map _).bind pseudoClass? = segment.pseudo
    cases hsome : segment.pseudo with
    | none => rfl
    | some pseudo =>
      have hname : pseudo.name.toList ≠ [] := by simpa using (h.pseudo pseudo hsome).name.1
      obtain ⟨c, rest, hcons⟩ := List.exists_cons_of_ne_nil hname
      simp only [Option.map_some, Option.bind_some, hcons, pseudoClass?, map_ofList_map_toList]
      rw [← hcons, String.ofList_toList]
  rw [bare, bare, Segment.mk.injEq]
  exact ⟨rfl, htag, hid, h.classNames_classRun, hattributes, hpseudo, rfl⟩

/-! ## Reading what was written -/

/-- A written segment is read as it was written, with the rest behind the white space after it. -/
theorem read_write (h : segment.WellFormed) (after later : List Char) (hafter : Blank after)
    (hlast : after = [] → later = []) (hlater : BeginsInk later)
    (hhead : later.head? ≠ some '>') :
    (Parts.read (segment.write ++ (after ++ later))).1.text ≠ [] ∧
      trimStart (Parts.read (segment.write ++ (after ++ later))).2 = later ∧
      (Parts.read (segment.write ++ (after ++ later))).1.segment.bare = segment.bare := by
  have hspace : Blank [' '] := by decide
  obtain ⟨gap, hgap⟩ : ∃ gap, gap = relationText segment.child ++ (after ++ later) := ⟨_, rfl⟩
  have hbegins : BeginsGap gap := by
    rw [hgap]
    cases segment.child with
    | true => exact .child hspace (after ++ later)
    | false =>
      by_cases hnil : after = []
      · simp [relationText, hnil, hlast hnil, BeginsGap]
      · exact .blank_append hafter hnil later
  have hrelate : trimStart (segment.parts.extend gap).2 = later ∧
      (segment.parts.extend gap).1.child = segment.child := by
    rw [hgap]
    cases segment.child with
    | true => exact Parts.extend_child rfl hspace hafter hlater
    | false => exact Parts.extend_blank hafter hlater (.inr hhead)
  have hread : Parts.read (segment.write ++ (after ++ later)) = segment.parts.extend gap := by
    rw [Parts.read_eq_relate, write_eq_conditionsText, List.append_assoc, ← hgap,
      Parts.readConditions_conditionsText h.valid_parts hbegins, Parts.extend,
      if_neg (by simp [parts])]
    rfl
  rw [hread]
  refine ⟨?_, hrelate.1, ?_⟩
  · apply Parts.text_ne_nil_of_tag
    rw [Parts.tag_extend]
    simpa [parts] using h.tag.1
  · rw [Parts.bare_segment_extend, hrelate.2, h.bare_segment_parts]
    rfl

/-- A written segment begins with a character of its tag. -/
theorem exists_write_eq_cons (h : segment.WellFormed) :
    ∃ c rest, segment.write = c :: rest ∧ isTagChar c = true := by
  have htag : segment.tag.toList ≠ [] := by simpa using h.tag.1
  obtain ⟨c, rest, hcons⟩ := List.exists_cons_of_ne_nil htag
  rw [write, hcons]
  exact ⟨c, _, rfl, h.tag.2 c (by simp [hcons])⟩

theorem endsInk_write (h : segment.WellFormed) : EndsInk segment.write := by
  rw [write_eq_conditionsText]
  refine .append (h.valid_parts.endsIn_conditionsText ?_ (by simp [isWhiteSpace])) ?_
  · exact fun c hc ↦ isWhiteSpace_of_isTagChar hc
  · cases segment.child with
    | true => exact .concat [' '] rfl
    | false => exact .of_forall (by simp [relationText])

end Segment.WellFormed

/-- A chain with a segment in front of it. -/
private theorem intercalate_write_cons (segment : Segment) {segments : List Segment}
    (hne : segments ≠ []) :
    [' '].intercalate ((segment :: segments).map Segment.write) =
      segment.write ++ ([' '] ++ [' '].intercalate (segments.map Segment.write)) := by
  obtain ⟨next, later, rfl⟩ := List.exists_cons_of_ne_nil hne
  rw [List.map_cons, List.map_cons, List.intercalate_cons_cons, List.append_assoc]

section Chain

variable {segments : List Segment}

/-- A written chain begins with a character of a tag. -/
private theorem exists_intercalate_write_eq_cons (hne : segments ≠ [])
    (h : ∀ segment ∈ segments, segment.WellFormed) :
    ∃ c rest, [' '].intercalate (segments.map Segment.write) = c :: rest ∧ isTagChar c = true := by
  obtain ⟨first, later, rfl⟩ := List.exists_cons_of_ne_nil hne
  obtain ⟨c, rest, hwrite, hc⟩ := (h first List.mem_cons_self).exists_write_eq_cons
  cases later with
  | nil => exact ⟨c, rest, by simpa using hwrite, hc⟩
  | cons second later =>
    rw [intercalate_write_cons first (List.cons_ne_nil second later), hwrite]
    exact ⟨c, _, rfl, hc⟩

private theorem endsInk_intercalate_write (h : ∀ segment ∈ segments, segment.WellFormed) :
    EndsInk ([' '].intercalate (segments.map Segment.write)) := by
  induction segments with
  | nil => exact .of_forall (by simp)
  | cons first later ih =>
    obtain ⟨hfirst, hlater⟩ := List.forall_mem_cons.mp h
    by_cases hne : later = []
    · simpa [hne] using hfirst.endsInk_write
    · obtain ⟨c, rest, hcons, _⟩ := exists_intercalate_write_eq_cons hne hlater
      rw [intercalate_write_cons first hne, ← List.append_assoc]
      exact (ih hlater).append_left (by simp [hcons]) _

/-- A written chain of well-formed segments is read segment by segment, to its end. -/
theorem Reading.ofChars_intercalate_write (hne : segments ≠ [])
    (h : ∀ segment ∈ segments, segment.WellFormed) :
    (ofChars ([' '].intercalate (segments.map Segment.write))).stuck = none ∧
      (ofChars ([' '].intercalate (segments.map Segment.write))).segments.map Segment.bare =
        segments.map Segment.bare := by
  induction segments with
  | nil => exact absurd rfl hne
  | cons first later ih =>
    obtain ⟨hfirst, hlater⟩ := List.forall_mem_cons.mp h
    by_cases hlast : later = []
    · obtain ⟨htext, htrim, hbare⟩ := hfirst.read_write [] [] (by simp [Blank]) (fun _ ↦ rfl)
        (by simp [BeginsInk]) (by simp)
      rw [hlast, List.map_singleton, List.intercalate_singleton]
      rw [List.append_nil, List.append_nil] at htext htrim hbare
      rw [ofChars_of_trimStart_eq_nil htext htrim]
      exact ⟨rfl, by simp [hbare]⟩
    · obtain ⟨c, rest, hcons, hc⟩ := exists_intercalate_write_eq_cons hlast hlater
      have hink : BeginsInk (c :: rest) := by
        intro d later hd
        cases hd
        exact isWhiteSpace_of_isTagChar hc
      have hhead : (c :: rest).head? ≠ some '>' := by
        rintro ⟨⟩
        cases hc
      rw [← hcons] at hink hhead
      obtain ⟨htext, htrim, hbare⟩ := hfirst.read_write [' '] _ (by decide)
        (fun hnil ↦ by cases hnil) hink hhead
      obtain ⟨hstuck, hsegments⟩ := ih hlast hlater
      rw [intercalate_write_cons first hlast,
        ofChars_of_trimStart_ne_nil htext (by rw [htrim, hcons]; simp), htrim]
      exact ⟨hstuck, by rw [List.map_cons, List.map_cons, hbare, hsegments]⟩

/-- Without white space at its ends, the text of a chain is its own trimming. -/
theorem trim_intercalate_write (hne : segments ≠ [])
    (h : ∀ segment ∈ segments, segment.WellFormed) :
    trim ([' '].intercalate (segments.map Segment.write)) =
      [' '].intercalate (segments.map Segment.write) := by
  obtain ⟨c, rest, hcons, hc⟩ := exists_intercalate_write_eq_cons hne h
  have hbegin : BeginsInk ([' '].intercalate (segments.map Segment.write)) := by
    intro d later hd
    rw [hcons] at hd
    cases hd
    exact isWhiteSpace_of_isTagChar hc
  have hnone : Blank [] := by simp [Blank]
  simpa using trim_blank_around hnone hnone hbegin (endsInk_intercalate_write h)

end Chain

/-- The results of reading are the chains of well-formed segments with at least one segment: reading
gives no other, and it gives every such chain for its written text, but for the texts that the
segments carry. -/
theorem Segment.readAll_writeAll :
    (∀ (selector : String) (segments : List Segment), readAll selector = .ok segments →
      segments ≠ [] ∧ ∀ segment ∈ segments, segment.WellFormed) ∧
    ∀ segments : List Segment, segments ≠ [] → (∀ segment ∈ segments, segment.WellFormed) →
      ∃ read, readAll (writeAll segments) = .ok read ∧ read.map bare = segments.map bare := by
  refine ⟨?_, ?_⟩
  · intro selector segments hread
    obtain ⟨hstuck, rfl⟩ := Reading.chain_eq_ok_iff.mp hread
    refine ⟨Reading.segments_ne_nil hstuck, ?_⟩
    intro segment hmem
    obtain ⟨parts, hvalid, rfl⟩ := Reading.exists_parts_of_mem hmem
    exact hvalid.wellFormed
  · intro segments hne h
    obtain ⟨hstuck, hsegments⟩ := Reading.ofChars_intercalate_write hne h
    have hread : Reading.ofSelector (writeAll segments) =
        Reading.ofChars ([' '].intercalate (segments.map write)) := by
      rw [Reading.ofSelector, writeAll, String.toList_ofList, trim_intercalate_write hne h]
    rw [← hread] at hstuck hsegments
    exact ⟨_, Reading.chain_eq_ok_iff.mpr ⟨hstuck, rfl⟩, hsegments⟩

/-- A child with an empty attribute name and every other part, and a segment with a tag only. -/
theorem Segment.readAll_writeAll_of_menu :
    writeAll [⟨"", "ul", some "nav", ["a", "b-c"], .ofList [("x", none), ("", some "> y")],
        some ⟨"nth-child", some "2n+1 ]"⟩, true⟩, ⟨"", "*", none, [], .empty, none, false⟩] =
      "ul#nav.a.b-c[x=][=> y]:nth-child(2n+1 ]) > *" ∧
    ∃ read, readAll "ul#nav.a.b-c[x=][=> y]:nth-child(2n+1 ]) > *" = .ok read ∧
      read.map bare =
        [⟨"", "ul", some "nav", ["a", "b-c"], .ofList [("x", none), ("", some "> y")],
          some ⟨"nth-child", some "2n+1 ]"⟩, true⟩, ⟨"", "*", none, [], .empty, none, false⟩] := by
  have hwrite : writeAll [⟨"", "ul", some "nav", ["a", "b-c"],
        .ofList [("x", none), ("", some "> y")], some ⟨"nth-child", some "2n+1 ]"⟩, true⟩,
        ⟨"", "*", none, [], .empty, none, false⟩] =
      "ul#nav.a.b-c[x=][=> y]:nth-child(2n+1 ]) > *" := by
    decide +kernel
  refine ⟨hwrite, ?_⟩
  rw [← hwrite]
  exact readAll_writeAll.2 _ (List.cons_ne_nil _ _) (by decide +kernel)

end SelectorCompiler
