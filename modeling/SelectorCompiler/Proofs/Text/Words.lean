import Mathlib.Data.List.DropRight
import Mathlib.Data.List.Infix
import SelectorCompiler.Text.WhiteSpace

/-!
# Words

The words of a text are its longest runs without a space character: `mem_words_iff` says so by the
place of a word alone. Normalizing strips the spaces at the ends and writes one space for each run
of them, so the words stand between single spaces. A word is then found by searching for it with a
space on both sides, as `spaced_infix_iff` says.

Space characters are those of XML here, a smaller class than white space.
-/

namespace SelectorCompiler.Text

/-- A space, a tab, a line feed or a carriage return. -/
def isSpace (c : Char) : Bool :=
  c == ' ' || c == '\t' || c == '\n' || c == '\r'

/-- The pieces between space characters that are not empty, in order. -/
def words (text : List Char) : List (List Char) :=
  (text.splitOnP isSpace).filter fun piece ↦ !piece.isEmpty

/-- The run stands in the text, and it is not part of a longer one: it holds no space character, and
what stands next to it on either side, if anything does, is one. -/
def IsLongestRun (run text : List Char) : Prop :=
  run ≠ [] ∧ (∀ c ∈ run, isSpace c = false) ∧
    ∃ before after, text = before ++ run ++ after ∧
      (∀ c, before.getLast? = some c → isSpace c = true) ∧
      ∀ c, after.head? = some c → isSpace c = true

/-- One space for each run of space characters. -/
def collapseSpaces : List Char → List Char
  | [] => []
  | [c] => [if isSpace c then ' ' else c]
  | c :: next :: rest =>
    if isSpace c then
      if isSpace next then collapseSpaces (next :: rest) else ' ' :: collapseSpaces (next :: rest)
    else c :: collapseSpaces (next :: rest)

/-- The text without space characters at its ends, with one space for each run of them inside. -/
def normalizeSpaces (text : List Char) : List Char :=
  collapseSpaces ((text.dropWhile isSpace).rdropWhile isSpace)

/-! ## Words are the longest runs -/

/-- A piece between space characters holds none, and it begins and ends where they do. -/
private theorem exists_place_of_mem_splitOnP {piece text : List Char}
    (h : piece ∈ text.splitOnP isSpace) :
    (∀ c ∈ piece, isSpace c = false) ∧
      ∃ before after, text = before ++ piece ++ after ∧
        (∀ c, before.getLast? = some c → isSpace c = true) ∧
        ∀ c, after.head? = some c → isSpace c = true := by
  by_cases hspace : ∃ c ∈ text, isSpace c = true
  · -- The piece lies on one side of the space, and what bounds it there bounds it in the text.
    rcases hspace with ⟨space, hmem, hspace⟩
    rcases List.append_of_mem hmem with ⟨front, back, hsplit⟩
    rw [hsplit, List.splitOnP_append_cons front back hspace, List.mem_append] at h
    rcases h with hfront | hback
    · rcases exists_place_of_mem_splitOnP hfront with ⟨hink, before, after, rfl, hbefore, hafter⟩
      refine ⟨hink, before, after ++ space :: back, by simp [hsplit], hbefore, ?_⟩
      intro c hc
      cases after with
      | nil =>
        cases hc
        exact hspace
      | cons first rest => exact hafter c hc
    · rcases exists_place_of_mem_splitOnP hback with ⟨hink, before, after, rfl, hbefore, hafter⟩
      refine ⟨hink, front ++ space :: before, after, by simp [hsplit], ?_, hafter⟩
      intro c hc
      rw [List.getLast?_append_cons, List.getLast?_cons] at hc
      cases hlast : before.getLast? with
      | none =>
        rw [hlast] at hc
        cases hc
        exact hspace
      | some last =>
        rw [hlast] at hc
        cases hc
        exact hbefore _ hlast
  · have hink : ∀ c ∈ text, isSpace c = false := by
      intro c hc
      apply Bool.eq_false_iff.mpr
      exact fun hspaced ↦ hspace ⟨c, hc, hspaced⟩
    rw [List.splitOnP_eq_singleton hink, List.mem_singleton] at h
    subst h
    exact ⟨hink, [], [], by simp, by simp, by simp⟩
termination_by text.length
decreasing_by
  all_goals
    rw [hsplit, List.length_append, List.length_cons]
    omega

/-- A run between space characters, or at an end of the text, is a piece. -/
private theorem mem_splitOnP_of_place {run before after : List Char}
    (hink : ∀ c ∈ run, isSpace c = false)
    (hbefore : ∀ c, before.getLast? = some c → isSpace c = true)
    (hafter : ∀ c, after.head? = some c → isSpace c = true) :
    run ∈ (before ++ run ++ after).splitOnP isSpace := by
  have htail : run ∈ (run ++ after).splitOnP isSpace := by
    cases after with
    | nil => simp [List.splitOnP_eq_singleton hink]
    | cons space rest =>
      rw [List.splitOnP_append_cons run rest (hafter space rfl), List.splitOnP_eq_singleton hink]
      exact List.mem_cons_self
  cases before using List.reverseRecOn with
  | nil => exact htail
  | append_singleton front space =>
    have hspace : isSpace space = true := hbefore space (by simp)
    rw [List.append_assoc, List.append_assoc, List.singleton_append,
      List.splitOnP_append_cons front _ hspace]
    exact List.mem_append_right _ htail

/-- The words of a text are its longest runs without a space character. -/
theorem mem_words_iff {word text : List Char} : word ∈ words text ↔ IsLongestRun word text := by
  rw [words, List.mem_filter]
  constructor
  · rintro ⟨hpiece, hne⟩
    exact ⟨by simpa using hne, exists_place_of_mem_splitOnP hpiece⟩
  · rintro ⟨hne, hink, before, after, rfl, hbefore, hafter⟩
    exact ⟨mem_splitOnP_of_place hink hbefore hafter, by simpa using hne⟩

/-! ## Normalizing keeps the words -/

private theorem words_cons_space {c : Char} (hc : isSpace c = true) (text : List Char) :
    words (c :: text) = words text := by
  rw [words, List.splitOnP_cons_eq_if_modifyHead, if_pos hc, List.filter_cons_of_neg (by simp)]
  rfl

private theorem words_append_space {c : Char} (hc : isSpace c = true) (text : List Char) :
    words (text ++ [c]) = words text := by
  rw [words, List.splitOnP_append_cons text [] hc, List.filter_append, List.splitOnP_nil,
    List.filter_cons_of_neg (by simp), List.filter_nil, List.append_nil]
  rfl

private theorem words_dropWhile (text : List Char) :
    words (text.dropWhile isSpace) = words text := by
  induction text with
  | nil => rfl
  | cons c rest ih =>
    by_cases hc : isSpace c = true
    · rw [List.dropWhile_cons_of_pos hc, words_cons_space hc, ih]
    · rw [List.dropWhile_cons_of_neg hc]

private theorem words_rdropWhile (text : List Char) :
    words (text.rdropWhile isSpace) = words text := by
  induction text using List.reverseRecOn with
  | nil => rfl
  | append_singleton front c ih =>
    by_cases hc : isSpace c = true
    · rw [List.rdropWhile_concat_pos _ _ _ hc, words_append_space hc, ih]
    · rw [List.rdropWhile_concat_neg _ _ _ hc]

/-- Collapsing keeps the first piece and the words after it. The first piece has to be kept as well,
since a character in front of the text joins it. -/
private theorem splitOnP_collapseSpaces (text : List Char) :
    ∃ first collapsed pieces,
      (collapseSpaces text).splitOnP isSpace = first :: collapsed ∧
      text.splitOnP isSpace = first :: pieces ∧
      collapsed.filter (fun piece ↦ !piece.isEmpty) = pieces.filter fun piece ↦ !piece.isEmpty := by
  have hspace : isSpace ' ' = true := by decide
  fun_induction collapseSpaces text with
  | case1 => exact ⟨[], [], [], rfl, rfl, rfl⟩
  | case2 c =>
    by_cases hc : isSpace c = true
    · simp only [if_pos hc]
      refine ⟨[], [[]], [[]], ?_, ?_, rfl⟩
      · rw [List.splitOnP_cons_eq_if_modifyHead, if_pos hspace, List.splitOnP_nil]
      · rw [List.splitOnP_cons_eq_if_modifyHead, if_pos hc, List.splitOnP_nil]
    · simp only [if_neg hc]
      refine ⟨[c], [], [], ?_, ?_, rfl⟩
      · rw [List.splitOnP_cons_eq_if_modifyHead, if_neg hc, List.splitOnP_nil, List.modifyHead_cons]
      · rw [List.splitOnP_cons_eq_if_modifyHead, if_neg hc, List.splitOnP_nil, List.modifyHead_cons]
  | case3 c next rest hc hnext ih =>
    rcases ih with ⟨first, collapsed, pieces, hcollapsed, hpieces, hfilter⟩
    rw [List.splitOnP_cons_eq_if_modifyHead, if_pos hnext] at hpieces
    cases hpieces
    refine ⟨[], collapsed, [] :: rest.splitOnP isSpace, hcollapsed, ?_, ?_⟩
    · rw [List.splitOnP_cons_eq_if_modifyHead, if_pos hc, List.splitOnP_cons_eq_if_modifyHead,
        if_pos hnext]
    · rw [List.filter_cons_of_neg (by simp), hfilter]
  | case4 c next rest hc hnext ih =>
    rcases ih with ⟨first, collapsed, pieces, hcollapsed, hpieces, hfilter⟩
    refine ⟨[], first :: collapsed, first :: pieces, ?_, ?_, ?_⟩
    · rw [List.splitOnP_cons_eq_if_modifyHead, if_pos hspace, hcollapsed]
    · rw [List.splitOnP_cons_eq_if_modifyHead, if_pos hc, hpieces]
    · rw [List.filter_cons, List.filter_cons, hfilter]
  | case5 c next rest hc ih =>
    rcases ih with ⟨first, collapsed, pieces, hcollapsed, hpieces, hfilter⟩
    refine ⟨c :: first, collapsed, pieces, ?_, ?_, hfilter⟩
    · rw [List.splitOnP_cons_eq_if_modifyHead, if_neg hc, hcollapsed, List.modifyHead_cons]
    · rw [List.splitOnP_cons_eq_if_modifyHead, if_neg hc, hpieces, List.modifyHead_cons]

/-- Normalizing keeps the words. -/
theorem words_normalizeSpaces (text : List Char) : words (normalizeSpaces text) = words text := by
  rcases splitOnP_collapseSpaces ((text.dropWhile isSpace).rdropWhile isSpace) with
    ⟨first, collapsed, pieces, hcollapsed, hpieces, hfilter⟩
  have hstripped : words ((text.dropWhile isSpace).rdropWhile isSpace) = words text := by
    rw [words_rdropWhile, words_dropWhile]
  rw [← hstripped, normalizeSpaces, words, hcollapsed, words, hpieces, List.filter_cons,
    List.filter_cons, hfilter]

/-! ## A word between spaces -/

private theorem eq_space_of_mem_collapseSpaces {text : List Char} {c : Char}
    (hmem : c ∈ collapseSpaces text) (hc : isSpace c = true) : c = ' ' := by
  fun_induction collapseSpaces text with
  | case1 => cases hmem
  | case2 first =>
    rw [List.mem_singleton] at hmem
    by_cases hfirst : isSpace first = true
    · rwa [if_pos hfirst] at hmem
    · rw [if_neg hfirst] at hmem
      rw [hmem] at hc
      exact absurd hc hfirst
  | case3 first next rest hfirst hnext ih => exact ih hmem
  | case4 first next rest hfirst hnext ih =>
    rcases List.mem_cons.mp hmem with heq | hrest
    · exact heq
    · exact ih hrest
  | case5 first next rest hfirst ih =>
    rcases List.mem_cons.mp hmem with heq | hrest
    · rw [heq] at hc
      exact absurd hc hfirst
    · exact ih hrest

private theorem splitOnP_congr {p q : Char → Bool} {text : List Char}
    (h : ∀ c ∈ text, p c = q c) : text.splitOnP p = text.splitOnP q := by
  induction text with
  | nil => rfl
  | cons c rest ih =>
    rw [List.splitOnP_cons_eq_if_modifyHead, List.splitOnP_cons_eq_if_modifyHead,
      h c List.mem_cons_self, ih fun d hd ↦ h d (List.mem_cons_of_mem _ hd)]

private theorem splitOnP_normalizeSpaces (text : List Char) :
    (normalizeSpaces text).splitOnP isSpace = (normalizeSpaces text).splitOn ' ' := by
  rw [List.splitOn_eq_splitOnP]
  apply splitOnP_congr
  intro c hmem
  by_cases hc : isSpace c = true
  · rw [hc, eq_space_of_mem_collapseSpaces hmem hc]
    rfl
  · have hne : c ≠ ' ' := fun heq ↦ hc (heq ▸ rfl)
    rw [Bool.eq_false_iff.mpr hc, beq_eq_false_iff_ne.mpr hne]

/-- The pieces between separators, each with the separator in front of it, make up the text with a
separator in front. -/
theorem flatMap_splitOn (separator : Char) (text : List Char) :
    (text.splitOn separator).flatMap (separator :: ·) = separator :: text := by
  induction text with
  | nil => rfl
  | cons c rest ih =>
    rcases hsplit : rest.splitOn separator with _ | ⟨first, pieces⟩
    · exact absurd hsplit (List.splitOn_ne_nil separator rest)
    · rw [hsplit, List.flatMap_cons, List.cons_append, List.cons_inj_right] at ih
      rw [List.splitOn_cons_eq_if_modifyHead, hsplit]
      by_cases hc : (c == separator) = true
      · rw [if_pos hc, List.flatMap_cons, List.flatMap_cons, List.cons_append, List.cons_append, ih,
          eq_of_beq hc]
        rfl
      · rw [if_neg hc, List.modifyHead_cons, List.flatMap_cons, List.cons_append, List.cons_append,
          ih]

private theorem spaced_infix_iff_mem_splitOn {word text : List Char} (hword : word ≠ [])
    (hspace : ' ' ∉ word) :
    ' ' :: (word ++ [' ']) <:+: ' ' :: (text ++ [' ']) ↔ word ∈ text.splitOn ' ' := by
  constructor
  · rintro ⟨before, after, heq⟩
    -- Both sides are split: the right one gives the pieces of `text` between two empty ones.
    have hleft : (before ++ ' ' :: (word ++ [' ']) ++ after).splitOn ' ' =
        before.splitOn ' ' ++ (word :: after.splitOn ' ') := by
      rw [List.append_assoc, List.cons_append, List.append_assoc, List.splitOn_append_cons_self,
        List.singleton_append, List.splitOn_append_cons_self, List.splitOn_eq_singleton hspace]
      rfl
    have hright : (' ' :: (text ++ [' '])).splitOn ' ' = [] :: (text.splitOn ' ' ++ [[]]) := by
      rw [List.splitOn_cons_eq_if_modifyHead, if_pos BEq.rfl, List.splitOn_append_cons_self,
        List.splitOn_nil]
    have hmem : word ∈ [] :: (text.splitOn ' ' ++ [[]]) := by
      rw [← hright, ← heq, hleft]
      exact List.mem_append_right _ List.mem_cons_self
    simpa [hword] using hmem
  · intro hmem
    rcases List.append_of_mem hmem with ⟨front, back, hsplit⟩
    have htext : ' ' :: (text ++ [' ']) =
        front.flatMap (' ' :: ·) ++ (' ' :: word ++ (back.flatMap (' ' :: ·) ++ [' '])) := by
      rw [← List.cons_append, ← flatMap_splitOn ' ' text, hsplit, List.flatMap_append,
        List.flatMap_cons, List.append_assoc, List.append_assoc]
    have hend : ∃ after, back.flatMap (' ' :: ·) ++ [' '] = ' ' :: after := by
      cases back with
      | nil => exact ⟨[], rfl⟩
      | cons piece pieces => exact ⟨piece ++ pieces.flatMap (' ' :: ·) ++ [' '], rfl⟩
    rcases hend with ⟨after, hafter⟩
    refine ⟨front.flatMap (' ' :: ·), after, ?_⟩
    rw [htext, hafter, List.append_assoc, List.cons_append, List.append_assoc,
      List.singleton_append, List.cons_append]

/-- In a normalized text between two spaces, a word between two spaces occurs exactly when it is one
of the words. -/
theorem spaced_infix_iff {word text : List Char} (hword : word ≠ [])
    (hink : ∀ c ∈ word, isSpace c = false) :
    ' ' :: (word ++ [' ']) <:+: ' ' :: (normalizeSpaces text ++ [' ']) ↔ word ∈ words text := by
  have hspace : ' ' ∉ word := fun hmem ↦ absurd (hink ' ' hmem) (by decide)
  have hmem : word ∈ words text ↔ word ∈ (normalizeSpaces text).splitOn ' ' := by
    rw [← words_normalizeSpaces, words, List.mem_filter, splitOnP_normalizeSpaces]
    simp [hword]
  rw [spaced_infix_iff_mem_splitOn hword hspace, hmem]

end SelectorCompiler.Text
