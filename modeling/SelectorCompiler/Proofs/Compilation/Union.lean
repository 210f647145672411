import SelectorCompiler.Proofs.Compilation.Priority
import SelectorCompiler.Proofs.Compilation.Recovery
import SelectorCompiler.Proofs.Query.Effect
import SelectorCompiler.Proofs.Text.Enclosure

/-!
# Unions of paths

A list of selectors becomes the union of their paths, with a bar between one path and the next. A
bar inside a string literal is text, so ids, classes and the values of attributes may hold one. A
tag is written as it is and may hold a bar as well, as in `svg|rect`: there it is an operator, and
one selector becomes two operands.

Every text here leaves no literal open at its end (`HasBars`), so the bars of texts in a row add up:
first for expressions, by recursion on the expression, then for steps, paths and whole unions. The
count of a path is the number of bars in its tags.
-/

namespace SelectorCompiler

open Text XPath

namespace XPath

/-! ## Operands -/

/-- A quotation mark opens a literal, which lasts up to the next mark of the same kind. -/
def quotationCloser? (c : Char) : Option Char :=
  if c = Quote.single.mark ∨ c = Quote.double.mark then some c else none

/-- The operands of a union: its text, cut at every bar outside of literals. -/
def operands (text : String) : List String :=
  (cutOutside quotationCloser? '|' none text.toList).map String.ofList

/-- The text has this many bars outside of literals, and leaves no literal open. -/
def HasBars (text : String) (count : Nat) : Prop :=
  HasMarks quotationCloser? '|' text.toList count

instance (text : String) (count : Nat) : Decidable (HasBars text count) :=
  inferInstanceAs (Decidable (HasMarks quotationCloser? '|' text.toList count))

/-- Neither a bar nor a quotation mark stands in the text. -/
def IsInert (text : String) : Prop :=
  '|' ∉ text.toList ∧ Quote.single.mark ∉ text.toList ∧ Quote.double.mark ∉ text.toList

instance (text : String) : Decidable (IsInert text) :=
  inferInstanceAs
    (Decidable ('|' ∉ text.toList ∧ Quote.single.mark ∉ text.toList ∧
      Quote.double.mark ∉ text.toList))

namespace HasBars

variable {text front rest : String} {count first second : Nat}

theorem append (hfront : HasBars front first) (hrest : HasBars rest second) :
    HasBars (front ++ rest) (first + second) := by
  rw [HasBars, String.toList_append]
  exact HasMarks.append hfront hrest

/-- Three texts without bars in a row: an operator between its operands, or an operand between its
parentheses. -/
theorem between (hfront : HasBars front 0) (htext : HasBars text 0) (hrest : HasBars rest 0) :
    HasBars (front ++ text ++ rest) 0 :=
  (hfront.append htext).append hrest

/-- In a text without quotation marks every bar counts. -/
theorem of_unquoted (h : ∀ quote : Quote, quote.mark ∉ text.toList) :
    HasBars text (text.toList.count '|') := by
  apply HasMarks.of_unopened
  intro c hc
  apply if_neg
  rintro (rfl | rfl)
  · exact h .single hc
  · exact h .double hc

theorem of_isInert (h : IsInert text) : HasBars text 0 := by
  obtain ⟨hbar, hsingle, hdouble⟩ := h
  rw [← List.count_eq_zero.mpr hbar]
  apply of_unquoted
  intro quote
  cases quote with
  | single => exact hsingle
  | double => exact hdouble

/-- Inside of its marks a literal hides every bar. -/
theorem of_literal {quote : Quote} (h : quote.mark ∉ text.toList) :
    HasBars (quote.text ++ text ++ quote.text) 0 := by
  have hmark : quotationCloser? quote.mark = some quote.mark ∧ quote.mark ≠ '|' := by
    cases quote <;> decide
  have htext : (quote.text ++ text ++ quote.text).toList =
      quote.mark :: (text.toList ++ [quote.mark]) := by
    simp [Quote.toList_text]
  rw [HasBars, htext]
  exact HasMarks.of_enclosed hmark.1 hmark.2 h

/-- A text without bars is a union of one operand. -/
theorem operands_eq (h : HasBars text 0) : operands text = [text] := by
  rw [operands, cutOutside_of_countOutside_eq_zero h.marks]
  simp

theorem length_operands (h : HasBars text count) : (operands text).length = count + 1 := by
  rw [operands, List.length_map, length_cutOutside, h.marks]

end HasBars

/-! ## Expressions and paths -/

/-- The literals of the expression do not hold their own mark, and its names and numbers are
inert. -/
def Expr.IsSealed : Expr → Prop
  | .literal quote text => quote.mark ∉ text.toList
  | .numeral text | .attribute text => IsInert text
  | .position | .last => True
  | .normalizeSpace inner | .group inner => inner.IsSealed
  | .concat first second third => first.IsSealed ∧ second.IsSealed ∧ third.IsSealed
  | .contains left right | .minus left right | .modulo left right | .equal left right
  | .atLeast left right | .both left right => left.IsSealed ∧ right.IsSealed

/-- A comparison with an attribute is written without spaces, any other with a space on both
sides. -/
private theorem Expr.exists_render_equal (left right : Expr) :
    ∃ sign, HasBars sign 0 ∧
      (Expr.equal left right).render = left.render ++ sign ++ right.render := by
  match left with
  | .attribute name => exact ⟨"=", by decide, rfl⟩
  | .literal .. | .numeral .. | .position | .last | .normalizeSpace .. | .concat .. | .contains ..
  | .minus .. | .modulo .. | .equal .. | .atLeast .. | .both .. | .group .. =>
    exact ⟨" = ", by decide, rfl⟩

/-- No bar stands outside of the literals of a sealed expression: every operator writes a fixed
text without bars around its operands. -/
theorem Expr.hasBars_render : ∀ {expr : Expr}, expr.IsSealed → HasBars expr.render 0
  | .literal _ _, h => .of_literal h
  | .numeral _, h => .of_isInert h
  | .attribute _, h => (by decide : HasBars "@" 0).append (.of_isInert h)
  | .position, _ => (by decide : HasBars "position()" 0)
  | .last, _ => (by decide : HasBars "last()" 0)
  | .normalizeSpace inner, h => by
    have hopen : HasBars "normalize-space(" 0 := by decide
    have hinner : HasBars inner.render 0 := hasBars_render h
    exact hopen.between hinner (by decide)
  | .concat _ _ _, ⟨hfirst, hsecond, hthird⟩ => by
    have hopen : HasBars "concat(" 0 := by decide
    have hcomma : HasBars ", " 0 := by decide
    have hpair := (hopen.between (hasBars_render hfirst) hcomma).between (hasBars_render hsecond)
      hcomma
    exact hpair.between (hasBars_render hthird) (by decide)
  | .contains _ _, ⟨htext, hpart⟩ => by
    have hopen : HasBars "contains(" 0 := by decide
    have hcomma : HasBars ", " 0 := by decide
    exact (hopen.between (hasBars_render htext) hcomma).between (hasBars_render hpart) (by decide)
  | .minus _ _, ⟨hleft, hright⟩ => by
    have hsign : HasBars " -" 0 := by decide
    exact (hasBars_render hleft).between hsign (hasBars_render hright)
  | .modulo _ _, ⟨hleft, hright⟩ => by
    have hsign : HasBars " mod " 0 := by decide
    exact (hasBars_render hleft).between hsign (hasBars_render hright)
  | .equal left right, ⟨hleft, hright⟩ => by
    obtain ⟨sign, hsign, htext⟩ := exists_render_equal left right
    rw [htext]
    exact (hasBars_render hleft).between hsign (hasBars_render hright)
  | .atLeast _ _, ⟨hleft, hright⟩ => by
    have hsign : HasBars " >= " 0 := by decide
    exact (hasBars_render hleft).between hsign (hasBars_render hright)
  | .both _ _, ⟨hleft, hright⟩ => by
    have hsign : HasBars " and " 0 := by decide
    exact (hasBars_render hleft).between hsign (hasBars_render hright)
  | .group inner, h => by
    have hopen : HasBars "(" 0 := by decide
    have hinner : HasBars inner.render 0 := hasBars_render h
    exact hopen.between hinner (by decide)

/-- Sealed conditions are joined to a sealed predicate. -/
theorem Expr.isSealed_of_conjunction? {conditions : List Expr}
    (h : ∀ condition ∈ conditions, condition.IsSealed) {predicate : Expr}
    (hpredicate : Expr.conjunction? conditions = some predicate) : predicate.IsSealed := by
  have hfold : ∀ (rest : List Expr) (joined : Expr), joined.IsSealed →
      (∀ condition ∈ rest, condition.IsSealed) →
      (rest.foldl (fun joined next ↦ .both joined (.group next)) joined).IsSealed := by
    intro rest
    induction rest with
    | nil => exact fun _ hjoined _ ↦ hjoined
    | cons next rest ih =>
      intro joined hjoined hrest
      obtain ⟨hnext, hlater⟩ := List.forall_mem_cons.mp hrest
      exact ih (.both joined (.group next)) ⟨hjoined, hnext⟩ hlater
  match conditions, h, hpredicate with
  | [condition], h, rfl => exact h condition List.mem_cons_self
  | first :: second :: rest, h, rfl =>
    obtain ⟨hfirst, hrest⟩ := List.forall_mem_cons.mp h
    exact hfold (second :: rest) (.group first) hfirst hrest

/-- In a step the bars of its name are operators. -/
theorem Step.hasBars_render {step : Step} (hname : ∀ quote : Quote, quote.mark ∉ step.name.toList)
    (hpredicate : ∀ predicate ∈ step.predicate, predicate.IsSealed) :
    HasBars step.render (step.name.toList.count '|') := by
  have haxis : HasBars step.axis.text 0 := by
    cases step.axis with
    | descendant => decide
    | child => decide
  have hfront := haxis.append (.of_unquoted hname)
  rw [Nat.zero_add] at hfront
  rw [Step.render]
  refine hfront.append (?_ : HasBars _ 0)
  cases hsome : step.predicate with
  | none => decide
  | some predicate =>
    have hopen : HasBars "[" 0 := by decide
    exact hopen.between (Expr.hasBars_render (hpredicate predicate hsome)) (by decide)

end XPath

/-! ## Selectors -/

namespace Segment

variable {segment : Segment}

/-- Names of attributes are inert, as one of letters, digits, `_` and `-` is, and no value holds the
quotation mark it is put in. -/
def InertAttributes (segment : Segment) : Prop :=
  ∀ entry ∈ segment.attributes.entries, IsInert entry.1 ∧ ∀ value ∈ entry.2, '"' ∉ value.toList

instance (segment : Segment) : Decidable segment.InertAttributes :=
  inferInstanceAs (Decidable (∀ entry ∈ segment.attributes.entries,
    IsInert entry.1 ∧ ∀ value ∈ entry.2, '"' ∉ value.toList))

/-- The bars in the tags of a chain. -/
def tagBars (segments : List Segment) : Nat :=
  (segments.map fun segment ↦ segment.tag.toList.count '|').sum

theorem isSealed_elementConditions (hformed : segment.WellFormed)
    (hinert : segment.InertAttributes) {test : Expr} (h : test ∈ segment.elementConditions) :
    test.IsSealed := by
  simp only [elementConditions, List.mem_append, List.mem_map, Option.mem_toList] at h
  rcases h with (⟨id, hid, rfl⟩ | ⟨⟨name, value⟩, hentry, rfl⟩) | ⟨name, hname, rfl⟩
  · have hid : Quote.single.mark ∉ id.toList := (hformed.id id hid).not_mem (by decide)
    exact ⟨(by decide : IsInert "id"), hid⟩
  · obtain ⟨hname, hvalue⟩ := hinert _ hentry
    cases value with
    | none => exact hname
    | some value => exact ⟨hname, hvalue value rfl⟩
  · have hquote : '"' ∉ name.toList := (hformed.classes name hname).not_mem (by decide)
    have hspaced : Quote.double.mark ∉ (" " ++ name ++ " ").toList := by
      simpa [Quote.mark] using hquote
    have hspace : Quote.double.mark ∉ " ".toList := by decide
    exact ⟨⟨hspace, (by decide : IsInert "class"), hspace⟩, hspaced⟩

end Segment

private theorem NthArgument.isInert_of_mem_texts {text : String} {argument : NthArgument}
    (h : ofText? text = some argument) {copied : String} (hcopied : copied ∈ argument.texts) :
    IsInert copied := by
  have habsent {c : Char} (hc : isArgumentChar c = false) : c ∉ copied.toList := by
    intro hmem
    rw [isArgumentChar_of_mem_texts h hcopied hmem] at hc
    cases hc
  exact ⟨habsent (by decide), habsent (by decide), habsent (by decide)⟩

private theorem NthArgument.isSealed_every {step offset : String} (hstep : IsInert step)
    (hoffset : IsInert offset) : (predicate.every step offset).IsSealed :=
  ⟨⟨⟨⟨trivial, hoffset⟩, hstep⟩, (by decide : IsInert "0")⟩, trivial, hoffset⟩

private theorem NthArgument.isSealed_predicate {argument : NthArgument}
    (h : ∀ copied ∈ argument.texts, IsInert copied) : argument.predicate.IsSealed := by
  cases argument with
  | odd => exact isSealed_every (by decide) (by decide)
  | even =>
    have htwo : IsInert "2" := by decide
    have hzero : IsInert "0" := by decide
    exact ⟨⟨⟨trivial, htwo⟩, hzero⟩, trivial, hzero⟩
  | index numeral => exact ⟨trivial, h numeral List.mem_cons_self⟩
  | every step offset =>
    have hoffset := h offset (List.mem_cons_of_mem _ List.mem_cons_self)
    exact isSealed_every (h step List.mem_cons_self) hoffset

theorem PseudoClass.isSealed_predicate {pseudo : PseudoClass} {place : Expr}
    (h : pseudo.predicate = .ok place) : place.IsSealed := by
  rcases predicate_eq_ok h with ⟨_, rfl⟩ | ⟨_, rfl⟩ | ⟨_, argument, hread, rfl⟩
  · exact (by decide : IsInert "1")
  · trivial
  · exact NthArgument.isSealed_predicate fun _ ↦ NthArgument.isInert_of_mem_texts hread

namespace Segment

variable {segment : Segment} {axis : Axis}

/-- The bars outside of literals in a step are those of the tag. -/
theorem hasBars_render_step (hformed : segment.WellFormed) (hinert : segment.InertAttributes)
    {step : Step} (h : segment.step axis = .ok step) :
    HasBars step.render (segment.tag.toList.count '|') := by
  obtain ⟨place, hplace, rfl⟩ := exists_place_of_step h
  apply Step.hasBars_render
  · intro quote
    apply hformed.tag.not_mem
    cases quote <;> decide
  · intro predicate hpredicate
    refine Expr.isSealed_of_conjunction? ?_ hpredicate
    intro condition hcondition
    rcases List.mem_append.mp hcondition with htest | hmem
    · exact isSealed_elementConditions hformed hinert htest
    · cases Option.mem_toList.mp hmem
      obtain ⟨pseudo, _, hpseudo⟩ := Option.map_eq_some_iff.mp hplace
      exact pseudo.isSealed_predicate hpseudo

theorem hasBars_render_path {segments : List Segment}
    (h : ∀ segment ∈ segments, segment.WellFormed ∧ segment.InertAttributes) {path : Path}
    (hpath : Segment.path axis segments = .ok path) : HasBars path.render (tagBars segments) := by
  induction segments generalizing axis path with
  | nil =>
    cases hpath
    decide
  | cons segment segments ih =>
    obtain ⟨⟨hformed, hinert⟩, hlater⟩ := List.forall_mem_cons.mp h
    obtain ⟨step, later, hstep, hrest, rfl⟩ := Segment.path_cons_eq_ok_iff.mp hpath
    rw [Path.render_cons]
    exact (hasBars_render_step hformed hinert hstep).append (ih hlater hrest)

end Segment

/-- The bars outside of literals in the path of a selector are those of its tags. -/
theorem hasBars_of_compileSelector {selector path : String} {axis : Axis}
    {segments : List Segment} (hread : Segment.readAll selector = .ok segments)
    (hinert : ∀ segment ∈ segments, segment.InertAttributes)
    (hpath : compileSelector selector axis = .ok path) :
    HasBars path (Segment.tagBars segments) := by
  obtain ⟨_, rfl⟩ := Reading.chain_eq_ok_iff.mp hread
  obtain ⟨_, steps, hsteps, rfl⟩ := compileSelector_eq_ok_iff.mp hpath
  refine Segment.hasBars_render_path ?_ hsteps
  intro segment hmem
  obtain ⟨parts, hvalid, rfl⟩ := Reading.exists_parts_of_mem hmem
  exact ⟨hvalid.wellFormed, hinert _ hmem⟩

/-! ## Lists of selectors -/

/-- The operands of a union of texts that leave no literal open are those of the texts. -/
theorem XPath.operands_intercalate {paths : List String} (hne : paths ≠ [])
    (h : ∀ path ∈ paths, ∃ count, HasBars path count) :
    operands ("|".intercalate paths) = paths.flatMap operands := by
  induction paths with
  | nil => exact absurd rfl hne
  | cons path later ih =>
    obtain ⟨⟨count, hpath⟩, hlater⟩ := List.forall_mem_cons.mp h
    cases later with
    | nil => simp
    | cons next later =>
      have hrest := ih (List.cons_ne_nil _ _) hlater
      rw [String.intercalate_cons_cons, List.flatMap_cons, ← hrest, operands, operands, operands,
        ← List.map_append, ← cutOutside_append (by decide) hpath.closed]
      simp

/-- Texts without bars are the operands of their union. -/
theorem XPath.flatMap_operands_of_zero {paths : List String} (h : ∀ path ∈ paths, HasBars path 0) :
    paths.flatMap operands = paths := by
  induction paths with
  | nil => rfl
  | cons path later ih =>
    obtain ⟨hpath, hlater⟩ := List.forall_mem_cons.mp h
    rw [List.flatMap_cons, hpath.operands_eq, ih hlater, List.singleton_append]

/-- Each path has as many bars outside of literals as the tags of its chain. -/
abbrev BarsOfChains (paths : List String) (chains : List (List Segment)) : Prop :=
  List.Forall₂ (fun path chain ↦ HasBars path (Segment.tagBars chain)) paths chains

/-- Selectors that compile are chains of segments, and the bars of their paths are those of the
tags. -/
theorem exists_chains {selectors paths : List String}
    (h : selectors.map (compileSelector · .descendant) = paths.map .ok) :
    ∃ chains : List (List Segment), selectors.map Segment.readAll = chains.map .ok ∧
      ((∀ chain ∈ chains, ∀ segment ∈ chain, segment.InertAttributes) →
        BarsOfChains paths chains) := by
  induction selectors generalizing paths with
  | nil =>
    rw [List.map_nil, eq_comm, List.map_eq_nil_iff] at h
    subst h
    exact ⟨[], rfl, fun _ ↦ .nil⟩
  | cons selector rest ih =>
    cases paths with
    | nil => cases h
    | cons path later =>
      obtain ⟨hpath, hlater⟩ := List.cons.inj h
      obtain ⟨chains, hchains, hbars⟩ := ih hlater
      have hread : Segment.readAll selector = .ok (Reading.ofSelector selector).segments :=
        Reading.chain_eq_ok_iff.mpr ⟨(compileSelector_eq_ok_iff.mp hpath).1, rfl⟩
      refine ⟨_ :: chains, by rw [List.map_cons, List.map_cons, hread, hchains], ?_⟩
      intro hinert
      obtain ⟨hfirst, hrest⟩ := List.forall_mem_cons.mp hinert
      exact .cons (hasBars_of_compileSelector hread hfirst hpath) (hbars hrest)

namespace BarsOfChains

variable {paths : List String} {chains : List (List Segment)}

theorem exists_hasBars (h : BarsOfChains paths chains) :
    ∀ path ∈ paths, ∃ count, HasBars path count := by
  induction h with
  | nil => simp
  | cons hpath _ ih => exact List.forall_mem_cons.mpr ⟨⟨_, hpath⟩, ih⟩

theorem length_operands (h : BarsOfChains paths chains) :
    (paths.flatMap operands).length = paths.length + (chains.map Segment.tagBars).sum := by
  induction h with
  | nil => rfl
  | cons hpath _ ih =>
    rw [List.flatMap_cons, List.length_append, hpath.length_operands, ih, List.length_cons,
      List.map_cons, List.sum_cons]
    omega

theorem hasBars_zero (h : BarsOfChains paths chains)
    (hzero : ∀ chain ∈ chains, Segment.tagBars chain = 0) : ∀ path ∈ paths, HasBars path 0 := by
  induction h with
  | nil => simp
  | cons hpath _ ih =>
    obtain ⟨hfirst, hlater⟩ := List.forall_mem_cons.mp hzero
    rw [hfirst] at hpath
    exact List.forall_mem_cons.mpr ⟨hpath, ih hlater⟩

end BarsOfChains

theorem Segment.tagBars_eq_zero_iff {segments : List Segment} :
    tagBars segments = 0 ↔ ∀ segment ∈ segments, '|' ∉ segment.tag.toList := by
  simp [tagBars, List.sum_eq_zero_iff_forall_eq_nat, List.count_eq_zero]

namespace Query

/-- An expression that compiles is a list of selectors that can be read. When the names of their
attributes are inert and no value holds the quotation mark it is put in, the union has one operand
for every selector and one more for every bar in a tag. Its operands are the paths of the selectors
exactly when no tag holds a bar. -/
theorem operands_compile {expression text : String}
    (h : (Query.new.compile expression .css).1 = .ok text) :
    ∃ chains : List (List Segment),
      (selectorsOf expression).map Segment.readAll = chains.map .ok ∧
      ((∀ chain ∈ chains, ∀ segment ∈ chain, segment.InertAttributes) →
        (operands text).length =
          (selectorsOf expression).length + (chains.map Segment.tagBars).sum ∧
        ((operands text).map .ok = (selectorsOf expression).map (compileSelector · .descendant) ↔
          ∀ chain ∈ chains, ∀ segment ∈ chain, '|' ∉ segment.tag.toList)) := by
  obtain ⟨paths, hpaths, rfl⟩ := exists_paths_of_compile h
  obtain ⟨chains, hchains, hbars⟩ := exists_chains hpaths
  refine ⟨chains, hchains, fun hinert ↦ ?_⟩
  have hunion := hbars hinert
  have hlength : (selectorsOf expression).length = paths.length := by
    simpa using congrArg List.length hpaths
  have hne : paths ≠ [] := by
    have hpieces : selectorsOf expression ≠ [] := by
      simp [selectorsOf, pieces, List.splitOn_ne_nil]
    rw [← List.length_pos_iff, hlength, List.length_pos_iff] at hpieces
    exact hpieces
  have hoperands := operands_intercalate hne hunion.exists_hasBars
  have hcount : (operands ("|".intercalate paths)).length =
      (selectorsOf expression).length + (chains.map Segment.tagBars).sum := by
    rw [hoperands, hunion.length_operands, hlength]
  have hclear : (chains.map Segment.tagBars).sum = 0 ↔
      ∀ chain ∈ chains, ∀ segment ∈ chain, '|' ∉ segment.tag.toList := by
    simp [List.sum_eq_zero_iff_forall_eq_nat, Segment.tagBars_eq_zero_iff]
  refine ⟨hcount, ?_⟩
  rw [← hclear]
  constructor
  · intro hsame
    have hsize := congrArg List.length hsame
    rw [List.length_map, List.length_map, hcount] at hsize
    omega
  · intro hzero
    have hall : ∀ chain ∈ chains, Segment.tagBars chain = 0 := by
      simpa [List.sum_eq_zero_iff_forall_eq_nat] using hzero
    rw [hoperands, flatMap_operands_of_zero (hunion.hasBars_zero hall)]
    exact hpaths.symm

/-- Bars in an id, in a class and in values, one of them behind the other quotation mark. -/
theorem operands_compile_of_quoted_bars :
    let expression := "ul#a|b>li.c|d[x=p|q] , a[y='|]:last-child"
    let paths := ["//ul[@id='a|b']/li[(@x=\"p|q\")" ++
      " and (contains(concat(\" \", normalize-space(@class), \" \"), \" c|d \"))]",
      "//a[(@y=\"'|\") and (last())]"]
    let chains : List (List Segment) :=
      [[⟨"ul#a|b>", "ul", some "a|b", [], .empty, none, true⟩,
        ⟨"li.c|d[x=p|q]", "li", none, ["c|d"], .ofList [("x", some "p|q")], none, false⟩],
      [⟨"a[y='|]:last-child", "a", none, [], .ofList [("y", some "'|")],
        some ⟨"last-child", none⟩, false⟩]]
    (Query.new.compile expression .css).1 = .ok ("|".intercalate paths) ∧
      (selectorsOf expression).map Segment.readAll = chains.map .ok ∧
      (∀ chain ∈ chains, ∀ segment ∈ chain, segment.InertAttributes) ∧
      (operands ("|".intercalate paths)).map .ok =
        (selectorsOf expression).map (compileSelector · .descendant) := by
  intro expression paths chains
  have hcompile : (Query.new.compile expression .css).1 = .ok ("|".intercalate paths) := by
    decide +kernel
  have hread : (selectorsOf expression).map Segment.readAll = chains.map .ok := by decide +kernel
  have hinert : ∀ chain ∈ chains, ∀ segment ∈ chain, segment.InertAttributes := by
    decide +kernel
  have htags : ∀ chain ∈ chains, ∀ segment ∈ chain, '|' ∉ segment.tag.toList := by
    decide +kernel
  obtain ⟨others, hothers, hoperands⟩ := operands_compile hcompile
  have hsame : chains = others :=
    List.map_injective_iff.mpr (fun _ _ ↦ Except.ok.inj) (hread.symm.trans hothers)
  subst hsame
  exact ⟨hcompile, hread, hinert, (hoperands hinert).2.mpr htags⟩

/-- A bar in a tag cuts the path of one selector without attributes in two. -/
theorem operands_of_barred_tag :
    selectorsOf "svg|rect" = ["svg|rect"] ∧
      Segment.readAll "svg|rect" =
        .ok [⟨"svg|rect", "svg|rect", none, [], .empty, none, false⟩] ∧
      (Query.new.compile "svg|rect" .css).1 = .ok "//svg|rect" ∧
      operands "//svg|rect" = ["//svg", "rect"] := by
  decide +kernel

end Query

end SelectorCompiler
