import SelectorCompiler.Proofs.Selector.Grammar

/-!
# Reading is local

Readers look ahead: at the next character, at the first `]`, at the first `)`. Text that is added
at the end could therefore change how the text before it is read. It does not, when white space or
`>` comes first in what is added and the text before can be cut into atoms: then every bracket and
parenthesis that a reader has met is closed, and no run of characters goes on.

Only the last segment notices what is added, because white space and `>` belong to the segment
before them. `Reading.exists_append` says how.
-/

namespace SelectorCompiler

open Text

/-! ## Gaps -/

/-- White space or `>` comes first, if there is any text. -/
def BeginsGap (text : List Char) : Prop :=
  ∀ c, text.head? = some c → isWhiteSpace c = true ∨ c = '>'

/-- No character of the class comes first. -/
def Text.StopsAt (fits : Char → Bool) (text : List Char) : Prop :=
  ∀ c, text.head? = some c → fits c = false

/-- White space is no part of a tag. -/
theorem isTagChar_of_isWhiteSpace {c : Char} (h : isWhiteSpace c = true) : isTagChar c = false := by
  by_contra htag
  have hword := isTagChar_iff.mp (Bool.not_eq_false _ ▸ htag)
  simp only [isWhiteSpace, Bool.or_eq_true, Bool.and_eq_true, decide_eq_true_eq, beq_iff_eq] at h
  simp only [WordChar, List.mem_cons, List.not_mem_nil, or_false, Char.le_def,
    UInt32.le_iff_toNat_le] at hword
  rcases hword with hword | hword | hword | rfl | rfl | rfl | rfl
  · change 65 ≤ c.toNat ∧ c.toNat ≤ 90 at hword
    omega
  · change 97 ≤ c.toNat ∧ c.toNat ≤ 122 at hword
    omega
  · change 48 ≤ c.toNat ∧ c.toNat ≤ 57 at hword
    omega
  all_goals revert h; decide

/-- A character of a tag is no white space. -/
theorem isWhiteSpace_of_isTagChar {c : Char} (h : isTagChar c = true) : isWhiteSpace c = false := by
  by_contra hwhite
  rw [isTagChar_of_isWhiteSpace (Bool.not_eq_false _ ▸ hwhite)] at h
  cases h

namespace BeginsGap

variable {gap : List Char}

/-- A class of characters that are no white space and not `>` stops at a gap. -/
private theorem stopsAt (h : BeginsGap gap) {fits : Char → Bool}
    (hblank : ∀ c, isWhiteSpace c = true → fits c = false) (hchild : fits '>' = false) :
    StopsAt fits gap := by
  intro c hc
  rcases h c hc with hwhite | rfl
  · exact hblank c hwhite
  · exact hchild

theorem stopsAt_tag (h : BeginsGap gap) : StopsAt isTagChar gap :=
  h.stopsAt (fun _ hc ↦ isTagChar_of_isWhiteSpace hc) (by decide)

theorem stopsAt_id (h : BeginsGap gap) : StopsAt isIdChar gap := by
  refine h.stopsAt (fun c hc ↦ ?_) (by decide)
  by_contra hid
  have htag := isTagChar_of_isIdChar (Bool.not_eq_false _ ▸ hid)
  rw [isTagChar_of_isWhiteSpace hc] at htag
  cases htag

theorem stopsAt_class (h : BeginsGap gap) : StopsAt isClassChar gap := by
  intro c hc
  have hdot : c ≠ '.' := by
    rintro rfl
    exact absurd (h '.' hc) (by decide)
  simp [isClassChar, h.stopsAt_id c hc, hdot]

theorem stopsAt_pseudo (h : BeginsGap gap) : StopsAt isPseudoChar gap := by
  refine h.stopsAt (fun c hc ↦ ?_) (by decide)
  by_contra hpseudo
  have htag := isTagChar_of_isPseudoChar (Bool.not_eq_false _ ▸ hpseudo)
  rw [isTagChar_of_isWhiteSpace hc] at htag
  cases htag

/-- No other character comes first in a gap. -/
theorem head?_ne (h : BeginsGap gap) {c : Char} (hc : isWhiteSpace c = false) (hne : c ≠ '>') :
    gap.head? ≠ some c := by
  intro hhead
  rcases h c hhead with hwhite | heq
  · rw [hc] at hwhite
    cases hwhite
  · exact hne heq

/-- White space begins a gap. -/
theorem blank_append {blank : List Char} (hblank : Blank blank) (hne : blank ≠ [])
    (text : List Char) : BeginsGap (blank ++ text) := by
  obtain ⟨c, rest, rfl⟩ := List.exists_cons_of_ne_nil hne
  intro d hd
  cases hd
  exact .inl (hblank c List.mem_cons_self)

/-- The mark of a child begins a gap, also behind white space. -/
theorem child {blank : List Char} (hblank : Blank blank) (text : List Char) :
    BeginsGap (blank ++ '>' :: text) := by
  cases blank with
  | nil =>
    intro d hd
    cases hd
    exact .inr rfl
  | cons c rest => exact blank_append hblank (List.cons_ne_nil c rest) _

end BeginsGap

/-! ## Each reader -/

section Readers

variable {text gap : List Char}

/-- A text begins with no character that neither of its halves begins with. -/
theorem Text.head?_append_ne {c : Char} (htext : text.head? ≠ some c)
    (hgap : gap.head? ≠ some c) : (text ++ gap).head? ≠ some c := by
  cases text with
  | nil => exact hgap
  | cons first rest => exact htext

/-- A run of characters ends where it ended before the gap was added. -/
theorem Text.takeWhile_append_stop {fits : Char → Bool} (text : List Char)
    (h : text.dropWhile fits = [] → StopsAt fits gap) :
    (text ++ gap).takeWhile fits = text.takeWhile fits ∧
      (text ++ gap).dropWhile fits = text.dropWhile fits ++ gap := by
  induction text with
  | nil =>
    cases gap with
    | nil => exact ⟨rfl, rfl⟩
    | cons c rest => simp [h rfl c rfl]
  | cons c rest ih =>
    by_cases hc : fits c = true
    · rw [List.dropWhile_cons_of_pos hc] at h
      simp [hc, ih h]
    · simp [hc]

/-- A run is taken whole, and nothing of what follows. -/
theorem Text.takeWhile_run {fits : Char → Bool} {run rest : List Char}
    (hrun : ∀ c ∈ run, fits c = true) (hrest : StopsAt fits rest) :
    (run ++ rest).takeWhile fits = run ∧ (run ++ rest).dropWhile fits = rest := by
  obtain ⟨htake, hdrop⟩ := takeWhile_append_stop run fun _ ↦ hrest
  rw [htake, hdrop, List.takeWhile_eq_self_iff.mpr hrun, List.dropWhile_eq_nil_iff.mpr hrun]
  exact ⟨rfl, rfl⟩

/-- Without its mark in front a marked reader takes nothing. -/
theorem readMarked_of_head?_ne {mark : Char} {fits : Char → Bool} (h : text.head? ≠ some mark) :
    readMarked mark fits text = (none, text) := by
  cases text with
  | nil => rfl
  | cons c rest =>
    rw [readMarked, if_neg]
    rintro rfl
    exact h rfl

theorem readMarked_append {mark : Char} {fits : Char → Bool} (hfits : StopsAt fits gap)
    (hmark : gap.head? ≠ some mark) :
    readMarked mark fits (text ++ gap) =
      ((readMarked mark fits text).1, (readMarked mark fits text).2 ++ gap) := by
  cases text with
  | nil => exact readMarked_of_head?_ne hmark
  | cons c rest =>
    obtain ⟨htake, hdrop⟩ := takeWhile_append_stop rest fun _ ↦ hfits
    by_cases hc : c = mark
    · rw [List.cons_append, readMarked, readMarked, if_pos hc, if_pos hc, htake, hdrop]
      cases rest.takeWhile fits with
      | nil => rfl
      | cons first run => rfl
    · rw [List.cons_append, readMarked, readMarked, if_neg hc, if_neg hc]
      rfl

theorem readId_append (hgap : BeginsGap gap) :
    readId (text ++ gap) = ((readId text).1, (readId text).2 ++ gap) :=
  readMarked_append hgap.stopsAt_id (hgap.head?_ne (by decide) (by decide))

theorem readClasses_append (hgap : BeginsGap gap) :
    readClasses (text ++ gap) = ((readClasses text).1, (readClasses text).2 ++ gap) :=
  readMarked_append hgap.stopsAt_class (hgap.head?_ne (by decide) (by decide))

/-- Without a bracket in front no clause is read. -/
theorem readClauses_of_head?_ne (h : text.head? ≠ some '[') : readClauses text = ([], text) := by
  rw [readClauses]
  rintro rest rfl
  exact h rfl

theorem readClauses_append (hcuts : Cuts text) (hgap : gap.head? ≠ some '[') :
    readClauses (text ++ gap) = ((readClauses text).1, (readClauses text).2 ++ gap) := by
  fun_induction readClauses text with
  | case1 text hnone =>
    -- A bracket that is not closed would be no atom.
    obtain ⟨body, rest, _, htail, _⟩ := hcuts.begins
    rw [upTo?_eq_none_iff, htail] at hnone
    simp at hnone
  | case2 text body rest hsome later ih =>
    obtain ⟨rfl, hbody⟩ := upTo?_eq_some_iff.mp hsome
    obtain ⟨other, final, hother, htail, hfinal⟩ := hcuts.begins
    have hsame := upTo?_eq_some_iff.mpr ⟨htail, hother⟩
    rw [upTo?_eq_some_iff.mpr ⟨rfl, hbody⟩] at hsame
    cases hsame
    rw [List.cons_append, List.append_assoc, List.cons_append, readClauses_clause hbody,
      ih hfinal]
  | case3 text hno =>
    apply readClauses_of_head?_ne
    apply head?_append_ne _ hgap
    intro hhead
    obtain ⟨rest, rfl⟩ := List.head?_eq_some_iff.mp hhead
    exact hno rest rfl

/-- Without a parenthesis in front no argument is read. -/
theorem readArgument_of_head?_ne (h : text.head? ≠ some '(') :
    readArgument text = (none, text) := by
  unfold readArgument
  split
  · exact absurd rfl h
  · rfl

/-- Without a colon in front no pseudo-class is read. -/
theorem readPseudo_of_head?_ne (h : text.head? ≠ some ':') : readPseudo text = (none, text) := by
  unfold readPseudo
  split
  · exact absurd rfl h
  · rfl

theorem readPseudo_colon (tail : List Char) :
    readPseudo (':' :: tail) =
      (some (tail.takeWhile isPseudoChar, (readArgument (tail.dropWhile isPseudoChar)).1),
        (readArgument (tail.dropWhile isPseudoChar)).2) := rfl

/-- A text of atoms begins with no parenthesis. -/
theorem Cuts.head?_ne_parenthesis (h : Cuts text) : text.head? ≠ some '(' := by
  intro hhead
  obtain ⟨tail, rfl⟩ := List.head?_eq_some_iff.mp hhead
  exact absurd h.begins.1 (by decide)

/-- The argument that follows the name of a pseudo-class is closed before the gap. -/
private theorem readArgument_append {tail : List Char} (hcuts : Cuts (':' :: tail))
    (hgap : BeginsGap gap) :
    readArgument (tail.dropWhile isPseudoChar ++ gap) =
      ((readArgument (tail.dropWhile isPseudoChar)).1,
        (readArgument (tail.dropWhile isPseudoChar)).2 ++ gap) := by
  obtain ⟨name, rest, hname, rfl, hrest⟩ := hcuts.begins
  rw [List.dropWhile_append_of_pos hname]
  rcases hrest with hrest | ⟨body, later, hne, hbody, rfl, hlater⟩
  · have hopen : (rest.dropWhile isPseudoChar).head? ≠ some '(' :=
      (hrest.dropWhile fun c hc ↦ .inl (isTagChar_of_isPseudoChar hc)).head?_ne_parenthesis
    have hgap' : gap.head? ≠ some '(' := hgap.head?_ne (by decide) (by decide)
    rw [readArgument_of_head?_ne (head?_append_ne hopen hgap'), readArgument_of_head?_ne hopen]
  · rw [List.dropWhile_cons_of_neg (by decide), readArgument_argument hne hbody,
      List.cons_append, List.append_assoc, List.cons_append, readArgument_argument hne hbody]

theorem readPseudo_append (hcuts : Cuts text) (hgap : BeginsGap gap) :
    readPseudo (text ++ gap) = ((readPseudo text).1, (readPseudo text).2 ++ gap) := by
  by_cases hhead : text.head? = some ':'
  · obtain ⟨tail, rfl⟩ := List.head?_eq_some_iff.mp hhead
    obtain ⟨htake, hdrop⟩ := takeWhile_append_stop tail fun _ ↦ hgap.stopsAt_pseudo
    rw [List.cons_append, readPseudo_colon, readPseudo_colon, htake, hdrop,
      readArgument_append hcuts hgap]
  · have hgap' : gap.head? ≠ some ':' := hgap.head?_ne (by decide) (by decide)
    rw [readPseudo_of_head?_ne (head?_append_ne hhead hgap'), readPseudo_of_head?_ne hhead]

end Readers

/-! ## The conditions and the relation of a segment -/

namespace Parts

/-- The parts up to the pseudo-class, and the text after them. -/
def readConditions (text : List Char) : Parts × List Char :=
  let id := readId (text.dropWhile isTagChar)
  let classes := readClasses id.2
  let clauses := readClauses classes.2
  let pseudo := readPseudo clauses.2
  ({ tag := text.takeWhile isTagChar
     id := id.1
     classes := classes.1
     clauses := clauses.1
     pseudo := pseudo.1
     blank := []
     child := false }, pseudo.2)

/-- The parts with the white space and the `>` at the front of a text, and the text after these. -/
def relate (parts : Parts) (text : List Char) : Parts × List Char :=
  let child := readChild (trimStart text)
  ({ parts with blank := text.takeWhile isWhiteSpace, child := child.1 }, child.2)

theorem read_eq_relate (text : List Char) :
    read text = (readConditions text).1.relate (readConditions text).2 := rfl

/-- The relation comes last in the text of a segment. -/
theorem text_relate {parts : Parts} (hblank : parts.blank = []) (hchild : parts.child = false)
    (text : List Char) :
    (parts.relate text).1.text =
      parts.text ++ (text.takeWhile isWhiteSpace ++ childText (readChild (trimStart text)).1) := by
  simp [relate, Parts.text, hblank, hchild, show childText false = [] from rfl]

/-- A relation and the text after it make up the text that it was read from. -/
theorem text_relate_append {parts : Parts} (hblank : parts.blank = [])
    (hchild : parts.child = false) (text : List Char) :
    (parts.relate text).1.text ++ (parts.relate text).2 = parts.text ++ text := by
  rw [text_relate hblank hchild, relate, List.append_assoc, List.append_assoc,
    childText_append_rest, takeWhile_append_trimStart]

/-- The conditions and the text after them make up the text. -/
theorem text_readConditions_append (text : List Char) :
    (readConditions text).1.text ++ (readConditions text).2 = text := by
  rw [← text_relate_append rfl rfl, ← read_eq_relate, text_append_rest]

/-- What is added in a gap does not change the conditions. -/
theorem readConditions_append {text gap : List Char} (hcuts : Cuts text) (hgap : BeginsGap gap) :
    readConditions (text ++ gap) =
      ((readConditions text).1, (readConditions text).2 ++ gap) := by
  obtain ⟨htake, hdrop⟩ := takeWhile_append_stop text fun _ ↦ hgap.stopsAt_tag
  have htag : Cuts (text.dropWhile isTagChar) := hcuts.dropWhile fun _ hc ↦ .inl hc
  have hclauses := readClauses_append htag.rest_readId.rest_readClasses
    (hgap.head?_ne (by decide) (by decide))
  have hpseudo := readPseudo_append htag.rest_readId.rest_readClasses.rest_readClauses hgap
  simp only [readConditions, htake, hdrop, readId_append hgap, readClasses_append hgap, hclauses,
    hpseudo]

/-- A relation that is followed by more does not change when text is added. -/
theorem relate_append {parts : Parts} {text : List Char} (hmore : trimStart text ≠ [])
    (gap : List Char) :
    parts.relate (text ++ gap) = ((parts.relate text).1, (parts.relate text).2 ++ gap) := by
  have hstop : trimStart text = [] → StopsAt isWhiteSpace gap := fun hnil ↦ absurd hnil hmore
  obtain ⟨htake, hdrop⟩ := takeWhile_append_stop text hstop
  obtain ⟨c, rest, hrest⟩ := List.exists_cons_of_ne_nil hmore
  have hchild : readChild (c :: rest ++ gap) =
      ((readChild (c :: rest)).1, (readChild (c :: rest)).2 ++ gap) := by
    by_cases hc : c = '>'
    · subst hc
      rfl
    · simp [readChild, hc]
  rw [trimStart] at hrest
  simp only [relate, trimStart, htake, hdrop, hrest, hchild]

/-- Go on with the relation of a last segment: one that ends with `>` is complete, and to any other
belong the white space and the `>` that follow. -/
def extend (parts : Parts) (gap : List Char) : Parts × List Char :=
  if parts.child then (parts, gap) else parts.relate gap

/-- Behind white space, a last segment goes on with any text that does not begin with `>`; one that
ends with `>` goes on with any text. -/
theorem extend_blank {parts : Parts} {blank text : List Char} (hblank : Blank blank)
    (htext : BeginsInk text) (h : parts.child = true ∨ text.head? ≠ some '>') :
    trimStart (parts.extend (blank ++ text)).2 = text ∧
      (parts.extend (blank ++ text)).1.child = parts.child := by
  by_cases hchild : parts.child = true
  · rw [extend, if_pos hchild]
    exact ⟨trimStart_blank_append hblank htext, rfl⟩
  · have hread : readChild text = (false, text) := by
      unfold readChild
      split
      · exact absurd rfl (h.resolve_left hchild)
      · rfl
    rw [extend, if_neg hchild, relate, trimStart_blank_append hblank htext, hread]
    exact ⟨trimStart_of_beginsInk htext, (Bool.eq_false_iff.mpr hchild).symm⟩

/-- A last segment that does not end with `>` takes the one that follows. -/
theorem extend_child {parts : Parts} (hchild : parts.child = false)
    {before after text : List Char} (hbefore : Blank before) (hafter : Blank after)
    (htext : BeginsInk text) :
    trimStart (parts.extend (before ++ '>' :: (after ++ text))).2 = text ∧
      (parts.extend (before ++ '>' :: (after ++ text))).1.child = true := by
  have hmark : BeginsInk ('>' :: (after ++ text)) := by
    intro c rest hc
    cases hc
    decide
  rw [extend, if_neg (by simp [hchild]), relate, trimStart_blank_append hbefore hmark]
  exact ⟨trimStart_blank_append hafter htext, rfl⟩

/-- Some segment is read at the front of a text of atoms, whatever is added to it. -/
theorem text_read_append_ne_nil {text : List Char} (hcuts : Cuts text) (hne : text ≠ [])
    (more : List Char) : (read (text ++ more)).1.text ≠ [] := by
  intro hnil
  obtain ⟨atom, rest, ha, rfl, _⟩ := hcuts.exists_atom hne
  rw [List.append_assoc] at hnil
  exact (readsNothing_of_text_eq_nil hnil).not_atom ha (List.prefix_append ..)

/-- A segment that is followed by more, or ends with `>`, does not change when text is added in a
gap. -/
theorem read_append_of_more {text gap : List Char} (hcuts : Cuts text) (hgap : BeginsGap gap)
    (hmore : (read text).2 ≠ [] ∨ (read text).1.child = true) :
    read (text ++ gap) = ((read text).1, (read text).2 ++ gap) := by
  have hafter : trimStart (readConditions text).2 ≠ [] := by
    intro hnil
    rw [read_eq_relate, relate, hnil] at hmore
    rcases hmore with hmore | hmore
    · exact hmore rfl
    · cases hmore
  rw [read_eq_relate, readConditions_append hcuts hgap, relate_append hafter, read_eq_relate]

/-- A last segment is continued by the text that is added in a gap. -/
theorem read_append_of_last {text gap : List Char} (hcuts : Cuts text) (hgap : BeginsGap gap)
    (hend : EndsInk text) (hlast : (read text).2 = []) :
    read (text ++ gap) = (read text).1.extend gap := by
  by_cases hchild : (read text).1.child = true
  · rw [extend, if_pos hchild, read_append_of_more hcuts hgap (.inr hchild), hlast]
    rfl
  · -- Nothing follows the conditions: white space at the end would have been trimmed.
    have hnone : trimStart (readConditions text).2 = [] := by
      have happend := childText_append_rest (trimStart (readConditions text).2)
      have hmark : (readChild (trimStart (readConditions text).2)).1 = false :=
        Bool.eq_false_iff.mpr hchild
      have hrest : (readChild (trimStart (readConditions text).2)).2 = [] := hlast
      rw [hmark, hrest] at happend
      exact happend.symm
    have hempty : (readConditions text).2 = [] := by
      have hsuffix : (readConditions text).2 <:+ text := ⟨_, text_readConditions_append text⟩
      exact EndsInk.eq_nil_of_blank (hend.of_suffix hsuffix) (trimStart_eq_nil_iff.mp hnone)
    rw [extend, if_neg hchild, read_eq_relate, readConditions_append hcuts hgap, hempty,
      read_eq_relate, hempty]
    rfl

end Parts

namespace Reading

/-- A text that is read to its end is a text of atoms. -/
theorem cuts_of_stuck_eq_none {text : List Char} (h : (ofChars text).stuck = none) : Cuts text := by
  obtain ⟨front, rest, htext, hfront, ⟨_, rfl⟩ | ⟨hsome, _⟩⟩ := exists_front text
  · rw [htext, List.append_nil]
    exact hfront
  · rw [hsome] at h
    cases h

/-- Text that is added in a gap continues the last segment of a text, and then the reading goes on
behind the gap. -/
theorem exists_append {text : List Char} (hcuts : Cuts text) (hne : text ≠ [])
    (hend : EndsInk text) :
    ∃ front last, (ofChars text).segments = front ++ [Parts.segment last] ∧
      ∀ gap, BeginsGap gap → trimStart (last.extend gap).2 ≠ [] →
        ofChars (text ++ gap) =
          ⟨front ++ (last.extend gap).1.segment ::
              (ofChars (trimStart (last.extend gap).2)).segments,
            (ofChars (trimStart (last.extend gap).2)).stuck⟩ := by
  fun_induction ofChars text with
  | case1 text cut hnothing =>
    have htext := Parts.text_read_append_ne_nil hcuts hne []
    rw [List.append_nil] at htext
    exact absurd hnothing htext
  | case2 text cut next hsome hlast =>
    refine ⟨[], cut.1, rfl, ?_⟩
    intro gap hgap hafter
    have hrest : cut.2 = [] := by
      have hsuffix : cut.2 <:+ text := ⟨_, Parts.text_append_rest text⟩
      exact EndsInk.eq_nil_of_blank (hend.of_suffix hsuffix) (trimStart_eq_nil_iff.mp hlast)
    have hread : Parts.read (text ++ gap) = cut.1.extend gap :=
      Parts.read_append_of_last hcuts hgap hend hrest
    rw [← hread] at hafter ⊢
    exact ofChars_of_trimStart_ne_nil (Parts.text_read_append_ne_nil hcuts hne gap) hafter
  | case3 text cut next hsome hmore later ih =>
    have hnext : next <:+ text := (trimStart_suffix cut.2).trans ⟨_, Parts.text_append_rest text⟩
    obtain ⟨front, last, hsegments, happend⟩ :=
      ih hcuts.rest_read.trimStart hmore (hend.of_suffix hnext)
    refine ⟨cut.1.segment :: front, last, ?_, ?_⟩
    · change _ :: later.segments = _
      rw [hsegments]
      rfl
    · intro gap hgap hafter
      have hrest : cut.2 ≠ [] := by
        intro hnil
        apply hmore
        change trimStart cut.2 = []
        rw [hnil]
        rfl
      have hread : Parts.read (text ++ gap) = (cut.1, cut.2 ++ gap) :=
        Parts.read_append_of_more hcuts hgap (.inl hrest)
      have hnext' : trimStart (cut.2 ++ gap) = next ++ gap :=
        (takeWhile_append_stop cut.2 fun hnil ↦ absurd hnil hmore).2
      have hgoes : trimStart (Parts.read (text ++ gap)).2 ≠ [] := by
        rw [hread, hnext']
        simp [hmore]
      rw [ofChars_of_trimStart_ne_nil (Parts.text_read_append_ne_nil hcuts hne gap) hgoes, hread,
        hnext', happend gap hgap hafter]
      rfl

end Reading

end SelectorCompiler
