import SelectorCompiler.Proofs.Compilation.Priority
import SelectorCompiler.Proofs.Query.Outcome
import SelectorCompiler.Proofs.Text.Enclosure

/-!
# Commas inside of a selector

A list of selectors is cut at every comma, also at one in a clause or in an argument, where a single
selector may hold it. Such a cut is never taken for a list: the piece in front of the first comma
ends inside of brackets or parentheses, and no selector does. So the first piece has no path, and
nothing is stored.

Every atom closes what it opens and shows no comma outside, hence so does every text of atoms
(`Cuts.hidesCommas`). White space opens and closes nothing, so trimming a piece does not help.
-/

namespace SelectorCompiler

open Text

/-! ## Atoms hide their commas -/

/-- Brackets enclose a clause, and parentheses the argument of a pseudo-class. -/
def bracketCloser? (c : Char) : Option Char :=
  if c = '[' then some ']' else if c = '(' then some ')' else none

/-- Every comma stands inside of brackets or parentheses, and none of these is open at the end. -/
abbrev HidesCommas (text : List Char) : Prop :=
  HasMarks bracketCloser? ',' text 0

/-- A text of characters among which there are no commas, brackets and parentheses. -/
private theorem hidesCommas_of_forall (fits : Char → Bool) {text : List Char}
    (h : ∀ c ∈ text, fits c = true) (hcomma : fits ',' = false) (hbracket : fits '[' = false)
    (hparenthesis : fits '(' = false) : HidesCommas text := by
  have hne {c d : Char} (hc : c ∈ text) (hd : fits d = false) : c ≠ d := by
    rintro rfl
    rw [h c hc] at hd
    cases hd
  have hopens : ∀ c ∈ text, bracketCloser? c = none := by
    intro c hc
    rw [bracketCloser?, if_neg (hne hc hbracket), if_neg (hne hc hparenthesis)]
  have hcount : HasMarks bracketCloser? ',' text (text.count ',') := .of_unopened hopens
  rwa [List.count_eq_zero.mpr fun hmem ↦ hne hmem hcomma rfl] at hcount

theorem HidesCommas.append {front rest : List Char} (hfront : HidesCommas front)
    (hrest : HidesCommas rest) : HidesCommas (front ++ rest) :=
  HasMarks.append hfront hrest

theorem Atom.hidesCommas {atom : List Char} (h : Atom atom) : HidesCommas atom := by
  have hmarks : HidesCommas ['#'] ∧ HidesCommas ['.'] ∧ HidesCommas [':'] := by decide
  obtain ⟨hhash, hdot, hcolon⟩ := hmarks
  cases h with
  | tag h =>
    have htag := isTagChar_iff.mpr h
    exact hidesCommas_of_forall isTagChar (by simpa using htag) rfl rfl rfl
  | id hne h =>
    have hrun := hidesCommas_of_forall isIdChar (fun c hc ↦ isIdChar_iff.mpr (h c hc)) rfl rfl rfl
    exact hhash.append hrun
  | classes hne h =>
    have hrun :=
      hidesCommas_of_forall isClassChar (fun c hc ↦ isClassChar_iff.mpr (h c hc)) rfl rfl rfl
    exact hdot.append hrun
  | clause h => exact .of_enclosed rfl (by decide) h
  | pseudo h =>
    have hname :=
      hidesCommas_of_forall isPseudoChar (fun c hc ↦ isPseudoChar_iff.mpr (h c hc)) rfl rfl rfl
    exact hcolon.append hname
  | call h hne hbody =>
    have hname :=
      hidesCommas_of_forall isPseudoChar (fun c hc ↦ isPseudoChar_iff.mpr (h c hc)) rfl rfl rfl
    exact hcolon.append (hname.append (.of_enclosed rfl (by decide) hbody))
  | blank h => exact hidesCommas_of_forall isWhiteSpace (by simpa using h) rfl rfl rfl
  | child => decide

namespace Cuts

/-- A text of atoms shows no comma outside of brackets and parentheses. -/
theorem hidesCommas {text : List Char} (h : Cuts text) : HidesCommas text := by
  obtain ⟨atoms, hatoms, rfl⟩ := h
  induction atoms with
  | nil => decide
  | cons atom atoms ih =>
    obtain ⟨hatom, hlater⟩ := List.forall_mem_cons.mp hatoms
    exact hatom.hidesCommas.append (ih hlater)

/-- White space around a text of atoms is made of atoms as well. -/
theorem of_trim {text : List Char} (h : Cuts (trim text)) : Cuts text := by
  obtain ⟨front, back, hfront, hback, htext⟩ := exists_blank_around text
  have hblank {blank : List Char} (hblank : Blank blank) : Cuts blank :=
    of_chars fun c hc ↦ .blank (hblank c hc)
  rw [htext]
  exact ((hblank hfront).append h).append (hblank hback)

end Cuts

/-- A selector that can be read is made of atoms. -/
theorem Segment.cuts_of_readAll {selector : String} {segments : List Segment}
    (h : readAll selector = .ok segments) : Cuts selector.toList :=
  .of_trim (Reading.cuts_of_stuck_eq_none (Reading.chain_eq_ok_iff.mp h).1)

/-! ## Cutting at commas -/

theorem selectorsOf_of_not_mem {expression : String} (h : ',' ∉ expression.toList) :
    selectorsOf expression = [trimString expression] := by
  simp [selectorsOf, pieces, List.splitOn_eq_singleton h]

/-- The first selector of a list stands in front of the first comma. -/
theorem selectorsOf_of_comma {expression : String} {front rest : List Char}
    (h : expression.toList = front ++ ',' :: rest) (hfront : ',' ∉ front) :
    selectorsOf expression =
      trimString (String.ofList front) :: selectorsOf (String.ofList rest) := by
  simp [selectorsOf, pieces, h, List.splitOn_append_cons_self, List.splitOn_eq_singleton hfront]

theorem compileSelector_trimString (selector : String) (axis : XPath.Axis) :
    compileSelector (trimString selector) axis = compileSelector selector axis := by
  simp [compileSelector, Reading.ofSelector, trim_trim]

/-- A text that stops inside of brackets or parentheses has no path, trimmed or not. -/
theorem exists_error_of_open {front : List Char}
    (h : front.foldl (awaited bracketCloser?) none ≠ none) (axis : XPath.Axis) :
    ∃ error, compileSelector (trimString (String.ofList front)) axis = .error error := by
  cases hcompile : compileSelector (trimString (String.ofList front)) axis with
  | error error => exact ⟨error, rfl⟩
  | ok path =>
    rw [compileSelector_trimString] at hcompile
    obtain ⟨segments, hread, _⟩ := exists_compileSelector_iff.mp ⟨path, hcompile⟩
    have hcuts := Segment.cuts_of_readAll hread
    rw [String.toList_ofList] at hcuts
    exact absurd hcuts.hidesCommas.closed h

namespace Query

/-- A list of one selector stores its path, or nothing when it has none. -/
theorem compile_of_not_mem {expression : String} (h : ',' ∉ expression.toList) :
    (∀ path, compileSelector expression .descendant = .ok path →
      Query.new.compile expression .css = (.ok path, ⟨.ofList [(trimString expression, path)]⟩)) ∧
    ∀ error, compileSelector expression .descendant = .error error →
      Query.new.compile expression .css = (.error error, Query.new) := by
  have houtcome : Memo.outcome Query.new.memo (trimString expression) =
      compileSelector expression .descendant := compileSelector_trimString expression .descendant
  constructor
  · intro path hpath
    rw [hpath] at houtcome
    simp only [compile, selectorsOf_of_not_mem h, compileSelectors_cons_of_ok houtcome]
    simp only [compileSelectors, Except.map, String.intercalate_singleton]
    rfl
  · intro error herror
    rw [herror] at houtcome
    simp only [compile, selectorsOf_of_not_mem h, compileSelectors_cons_of_error houtcome]
    rfl

/-- A selector that can be read, compiled as a list by a query that has compiled nothing. Without a
comma it is a list of one, and what is stored is its path. Its commas, if there are any, stand
inside of brackets or parentheses; then compiling the list fails, and nothing is stored. -/
theorem compile_of_readAll {selector : String} {segments : List Segment}
    (h : Segment.readAll selector = .ok segments) :
    (',' ∉ selector.toList →
      (Query.new.compile selector .css).1 = compileSelector selector .descendant ∧
      ∀ path, compileSelector selector .descendant = .ok path →
        (Query.new.compile selector .css).2.memo.entries = [(trimString selector, path)]) ∧
    (∀ front rest, selector.toList = front ++ ',' :: rest →
      front.foldl (awaited bracketCloser?) none ≠ none) ∧
    (',' ∈ selector.toList →
      ∃ error, Query.new.compile selector .css = (.error error, Query.new)) := by
  have hhidden (front rest : List Char) (htext : selector.toList = front ++ ',' :: rest) :
      front.foldl (awaited bracketCloser?) none ≠ none := by
    have hcuts := Segment.cuts_of_readAll h
    rw [htext] at hcuts
    exact hcuts.hidesCommas.foldl_awaited_ne_none
  refine ⟨?_, hhidden, ?_⟩
  · intro hcomma
    obtain ⟨hok, herror⟩ := compile_of_not_mem hcomma
    constructor
    · cases hcompile : compileSelector selector .descendant with
      | ok path => rw [hok path hcompile]
      | error error => rw [herror error hcompile]
    · intro path hpath
      rw [hok path hpath]
      rfl
  · intro hcomma
    obtain ⟨front, rest, htext, hfront⟩ := List.eq_append_cons_of_mem hcomma
    obtain ⟨error, herror⟩ := exists_error_of_open (hhidden front rest htext) .descendant
    have houtcome : Memo.outcome Query.new.memo (trimString (String.ofList front)) =
        .error error := herror
    refine ⟨error, ?_⟩
    simp only [compile, selectorsOf_of_comma htext hfront, compileSelectors_cons_of_error houtcome]
    rfl

/-- Two commas, one of them with white space in front, and a selector without any. -/
theorem compile_of_readAll_of_menu :
    let menu : List Segment :=
      [⟨"ul[x=1 , 2]>", "ul", none, [], .ofList [("x", some "1 , 2")], none, true⟩,
        ⟨"li:not(a,b)", "li", none, [], .empty, some ⟨"not", some "a,b"⟩, false⟩]
    let item : List Segment := [⟨"li[x=1]", "li", none, [], .ofList [("x", some "1")], none, false⟩]
    Segment.readAll "ul[x=1 , 2]>li:not(a,b)" = .ok menu ∧
      (∃ error, Query.new.compile "ul[x=1 , 2]>li:not(a,b)" .css = (.error error, Query.new)) ∧
      Segment.readAll " li[x=1]\t" = .ok item ∧
      (Query.new.compile " li[x=1]\t" .css).2.memo.entries = [("li[x=1]", "//li[@x=\"1\"]")] := by
  intro menu item
  have hmenu : Segment.readAll "ul[x=1 , 2]>li:not(a,b)" = .ok menu := by decide +kernel
  have hitem : Segment.readAll " li[x=1]\t" = .ok item := by decide +kernel
  have hpath : compileSelector " li[x=1]\t" .descendant = .ok "//li[@x=\"1\"]" := by
    decide +kernel
  refine ⟨hmenu, (compile_of_readAll hmenu).2.2 (by decide), hitem, ?_⟩
  rw [((compile_of_readAll hitem).1 (by decide)).2 _ hpath]
  decide +kernel

end Query

end SelectorCompiler
