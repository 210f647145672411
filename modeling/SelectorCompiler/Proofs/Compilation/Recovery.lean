import SelectorCompiler.Proofs.Compilation.Composition
import SelectorCompiler.Proofs.Compilation.Legibility
import SelectorCompiler.Proofs.Compilation.Position
import SelectorCompiler.Proofs.Selector.NthChild

/-!
# A path determines its chain

Two selectors that compile to one text are chains of the same segments: what differs between them
is white space, the relation after the last segment, and the way a pseudo-class is written. Values
may look like a part of a path, with parentheses, slashes or brackets that open, but the names of
attributes must be runs and a value must not hold the quotation mark it is put in.

The text of one step shows its axis, its name, its tests and its position. The tests come back as
id, attributes and classes, since each kind has a form of its own. From the steps the whole chain
follows: each step ends where the next one begins.
-/

namespace SelectorCompiler

open Text XPath

/-! ## Positions are told from tests -/

namespace NthArgument

private theorem toList_render_index (numeral : String) :
    (NthArgument.index numeral).predicate.render.toList =
      'p' :: ("osition() = ".toList ++ numeral.toList) := by
  simp [render_index]

private theorem toList_render_every (step offset : String) :
    (predicate.every step offset).render.toList =
      '(' :: 'p' :: ("osition() -".toList ++ (offset.toList ++ (") mod ".toList ++ (step.toList ++
        (" = 0 and position() >= ".toList ++ offset.toList))))) := by
  simp [render_every]

end NthArgument

namespace XPath.Expr

variable {place : Expr}

/-- A condition that begins with neither a parenthesis nor a test is not taken for a test. -/
private theorem isPlace_of_head {c : Char} {text : List Char} (h : place.render.toList = c :: text)
    (hbegins : c ≠ '(' ∧ beginsTest [c] = false) (hbracket : ']' ∉ c :: text) :
    place.IsPlace where
  bracket := by rwa [h]
  head := by
    rw [h]
    exact hbegins.2
  group := by
    intro rest hrest
    exact absurd (List.cons.inj (h.symm.trans hrest)).1 hbegins.1

/-- Nor is a condition that begins with a parenthesis and the name of another function. -/
private theorem isPlace_of_group {text : List Char} (h : place.render.toList = '(' :: 'p' :: text)
    (hbracket : ']' ∉ text) : place.IsPlace where
  bracket := by simpa [h] using hbracket
  head := by
    rw [h]
    rfl
  group := by
    intro rest hrest
    rw [← (List.cons.inj (h.symm.trans hrest)).2]
    rfl

end XPath.Expr

private theorem NthArgument.isPlace_every {step offset : String} (hstep : ']' ∉ step.toList)
    (hoffset : ']' ∉ offset.toList) : (predicate.every step offset).IsPlace := by
  apply Expr.isPlace_of_group (toList_render_every step offset)
  simp [hstep, hoffset]

private theorem NthArgument.isPlace_predicate {argument : NthArgument}
    (h : ∀ copied ∈ argument.texts, ']' ∉ copied.toList) : argument.predicate.IsPlace := by
  cases argument with
  | odd => exact isPlace_every (by decide) (by decide)
  | even => exact Expr.isPlace_of_head rfl (by decide) (by decide)
  | index numeral =>
    have hnumeral := h numeral List.mem_cons_self
    exact Expr.isPlace_of_head (toList_render_index numeral) (by decide) (by simp [hnumeral])
  | every step offset =>
    have hstep := h step List.mem_cons_self
    have hoffset := h offset (List.mem_cons_of_mem _ List.mem_cons_self)
    exact isPlace_every hstep hoffset

/-- The predicate of a pseudo-class is not taken for a test, and does not end its brackets. -/
theorem PseudoClass.isPlace_predicate {pseudo : PseudoClass} {place : Expr}
    (h : pseudo.predicate = .ok place) : place.IsPlace := by
  rcases predicate_eq_ok h with ⟨_, rfl⟩ | ⟨_, rfl⟩ | ⟨_, argument, hread, rfl⟩
  · exact Expr.isPlace_of_head rfl (by decide) (by decide)
  · exact Expr.isPlace_of_head rfl (by decide) (by decide)
  · apply NthArgument.isPlace_predicate
    intro copied hcopied hmem
    have hchar := NthArgument.isArgumentChar_of_mem_texts hread hcopied hmem
    exact absurd hchar (by decide)

/-! ## Tests come back as conditions -/

/-- The names of the attributes are runs, and no value holds the quotation mark it is put in. -/
def Segment.PlainAttributes (segment : Segment) : Prop :=
  ∀ entry ∈ segment.attributes.entries,
    IsRun isIdChar entry.1 ∧ ∀ value ∈ entry.2, '"' ∉ value.toList

instance (segment : Segment) : Decidable segment.PlainAttributes :=
  inferInstanceAs (Decidable (∀ entry ∈ segment.attributes.entries,
    IsRun isIdChar entry.1 ∧ ∀ value ∈ entry.2, '"' ∉ value.toList))

/-- A segment that a path can show. -/
structure Segment.IsShowable (segment : Segment) : Prop extends segment.WellFormed where
  plain : segment.PlainAttributes

theorem attributePredicate_eq (name : String) (value : Option String) :
    attributePredicate name value = attributeTest name (value.map (Quote.double, ·)) := by
  cases value <;> rfl

/-- The id in a test for an id. -/
def idOf? : Expr → Option String
  | .equal _ (.literal .single id) => some id
  | _ => none

/-- The name and the value in a test for an attribute. -/
def attributeOf? : Expr → Option (String × Option String)
  | .attribute name => some (name, none)
  | .equal (.attribute name) (.literal .double value) => some (name, some value)
  | _ => none

/-- The class in a test for a class, between its spaces. -/
def classOf? : Expr → Option String
  | .contains _ (.literal _ text) => some text
  | _ => none

namespace Segment

variable {segment other : Segment}

/-- The tests of a segment are legible. -/
theorem IsShowable.isElementTest (hsegment : segment.IsShowable) {test : Expr}
    (h : test ∈ segment.elementConditions) : test.IsElementTest := by
  simp only [elementConditions, List.mem_append, List.mem_map, Option.mem_toList] at h
  rcases h with (⟨id, hid, rfl⟩ | ⟨entry, hentry, rfl⟩) | ⟨name, hname, rfl⟩
  · have hrun := hsegment.id id hid
    change (attributeTest "id" (some (.single, id))).IsElementTest
    apply Expr.IsElementTest.hasAttribute (by decide)
    rintro _ _ ⟨⟩
    exact ⟨hrun.not_mem (by decide), hrun.not_mem (by decide)⟩
  · rw [attributePredicate_eq]
    apply Expr.IsElementTest.hasAttribute (hsegment.plain entry hentry).1
    intro quote value hrequired
    obtain ⟨_, hvalue, hpair⟩ := Option.map_eq_some_iff.mp hrequired
    cases hpair
    have hquoted := (hsegment.plain entry hentry).2 value hvalue
    exact ⟨hquoted, (hsegment.values entry hentry value hvalue).2.2⟩
  · exact .hasClass (hsegment.classes name hname)

/-- What a view shows of the tests: of those for the id, the attributes and the classes. -/
private theorem filterMap_elementConditions {α : Type} (view : Expr → Option α)
    (segment : Segment) :
    segment.elementConditions.filterMap view =
      segment.id.toList.filterMap (fun id ↦ view (attributeTest "id" (some (.single, id)))) ++
        segment.attributes.entries.filterMap
          (fun entry ↦ view (attributeTest entry.1 (entry.2.map (Quote.double, ·)))) ++
        segment.classes.filterMap (fun name ↦ view (classPredicate name)) := by
  simp only [elementConditions, attributePredicate_eq, List.filterMap_append, List.filterMap_map]
  rfl

private theorem filterMap_idOf? (segment : Segment) :
    segment.elementConditions.filterMap idOf? = segment.id.toList := by
  have hid (id : String) : idOf? (attributeTest "id" (some (.single, id))) = some id := rfl
  have hattribute (name : String) (value : Option String) :
      idOf? (attributeTest name (value.map (Quote.double, ·))) = none := by
    cases value <;> rfl
  have hclass (name : String) : idOf? (classPredicate name) = none := rfl
  simp [filterMap_elementConditions, hid, hattribute, hclass]

private theorem filterMap_attributeOf? (segment : Segment) :
    segment.elementConditions.filterMap attributeOf? = segment.attributes.entries := by
  have hid (id : String) : attributeOf? (attributeTest "id" (some (.single, id))) = none := rfl
  have hattribute (name : String) (value : Option String) :
      attributeOf? (attributeTest name (value.map (Quote.double, ·))) = some (name, value) := by
    cases value <;> rfl
  have hclass (name : String) : attributeOf? (classPredicate name) = none := rfl
  simp [filterMap_elementConditions, hid, hattribute, hclass]

private theorem filterMap_classOf? (segment : Segment) :
    segment.elementConditions.filterMap classOf? =
      segment.classes.map fun name ↦ " " ++ name ++ " " := by
  have hid (id : String) : classOf? (attributeTest "id" (some (.single, id))) = none := rfl
  have hattribute (name : String) (value : Option String) :
      classOf? (attributeTest name (value.map (Quote.double, ·))) = none := by
    cases value <;> rfl
  have hclass (name : String) : classOf? (classPredicate name) = some (" " ++ name ++ " ") := rfl
  simp [filterMap_elementConditions, hid, hattribute, hclass]

/-- The tests show the id, the attributes and the classes. -/
theorem elementConditions_inj (h : segment.elementConditions = other.elementConditions) :
    segment.id = other.id ∧ segment.attributes = other.attributes ∧
      segment.classes = other.classes := by
  have hid := congrArg (List.filterMap idOf?) h
  have hattributes := congrArg (List.filterMap attributeOf?) h
  have hclasses := congrArg (List.filterMap classOf?) h
  rw [filterMap_idOf?, filterMap_idOf?] at hid
  rw [filterMap_attributeOf?, filterMap_attributeOf?] at hattributes
  rw [filterMap_classOf?, filterMap_classOf?] at hclasses
  have hspaced : Function.Injective fun name : String ↦ " " ++ name ++ " " := by
    intro name other hname
    simpa using hname
  refine ⟨?_, OrderedMap.ext_entries hattributes, List.map_injective_iff.mpr hspaced hclasses⟩
  simpa using congrArg List.head? hid

/-! ## Steps come back as segments -/

/-- What a path shows of a segment. -/
@[ext]
structure Shown where
  tag : String
  id : Option String
  classes : List String
  attributes : OrderedMap String (Option String)
  /-- The text of the predicate, or the error when there is none. -/
  pseudo : Option (Except CompileError String)
deriving DecidableEq

/-- A path shows all of a segment but its own text and its relation, and of a pseudo-class the text
of its predicate. -/
def shown (segment : Segment) : Shown where
  tag := segment.tag
  id := segment.id
  classes := segment.classes
  attributes := segment.attributes
  pseudo := segment.pseudo.map fun pseudo ↦ pseudo.predicate.map Expr.render

/-- The step of a segment has its tests and the predicate of its pseudo-class. -/
theorem exists_place_of_step {axis : Axis} {step : Step} (h : segment.step axis = .ok step) :
    ∃ place : Option Expr, segment.pseudo.map PseudoClass.predicate = place.map .ok ∧
      step = ⟨axis, segment.tag,
        Expr.conjunction? (segment.elementConditions ++ place.toList)⟩ := by
  cases hpseudo : segment.pseudo with
  | none =>
    simp only [Segment.step, conditions, hpseudo, Except.map, Except.ok.injEq] at h
    refine ⟨none, rfl, ?_⟩
    rw [← h, Option.toList_none, List.append_nil]
  | some pseudo =>
    cases hplace : pseudo.predicate with
    | error error =>
      simp only [Segment.step, conditions, hpseudo, hplace] at h
      cases h
    | ok place =>
      simp only [Segment.step, conditions, hpseudo, hplace, Except.map, Except.ok.injEq] at h
      refine ⟨some place, ?_, h.symm⟩
      rw [Option.map_some, hplace, Option.map_some]

/-- The conditions of a segment are legible. -/
theorem IsShowable.legible (hsegment : segment.IsShowable) {place : Option Expr}
    (hplace : segment.pseudo.map PseudoClass.predicate = place.map .ok) :
    Legible segment.elementConditions place where
  tests := fun _ ↦ hsegment.isElementTest
  place := by
    rintro condition ⟨⟩
    obtain ⟨pseudo, _, hpredicate⟩ := Option.map_eq_some_iff.mp hplace
    exact pseudo.isPlace_predicate hpredicate

private theorem shown_pseudo {place : Option Expr}
    (h : segment.pseudo.map PseudoClass.predicate = place.map .ok) :
    segment.shown.pseudo = (place.map Expr.render).map .ok := by
  calc segment.shown.pseudo
    _ = (segment.pseudo.map PseudoClass.predicate).map (Except.map Expr.render) := by
      rw [Option.map_map]
      rfl
    _ = (place.map Expr.render).map .ok := by
      rw [h, Option.map_map, Option.map_map]
      rfl

/-- The text of its step shows a segment, the axis it is reached by, and where the step ends. -/
theorem IsShowable.step_append_inj (hsegment : segment.IsShowable) (hother : other.IsShowable)
    {axis otherAxis : Axis} {step otherStep : Step} (hstep : segment.step axis = .ok step)
    (hotherStep : other.step otherAxis = .ok otherStep) {rest later : List Char}
    (hrest : EndsStep rest) (hlater : EndsStep later)
    (h : step.render.toList ++ rest = otherStep.render.toList ++ later) :
    axis = otherAxis ∧ segment.shown = other.shown ∧ rest = later := by
  obtain ⟨place, hplace, rfl⟩ := exists_place_of_step hstep
  obtain ⟨otherPlace, hotherPlace, rfl⟩ := exists_place_of_step hotherStep
  obtain ⟨haxis, htag, ⟨htests, htexts⟩, hafter⟩ :=
    (hsegment.legible hplace).step_append_inj (hother.legible hotherPlace) hsegment.tag hother.tag
      hrest hlater h
  obtain ⟨hid, hattributes, hclasses⟩ := elementConditions_inj htests
  have hpseudo : segment.shown.pseudo = other.shown.pseudo := by
    rw [shown_pseudo hplace, shown_pseudo hotherPlace, htexts]
  exact ⟨haxis, Shown.ext htag hid hclasses hattributes hpseudo, hafter⟩

end Segment

/-! ## Paths come back as chains -/

namespace XPath.Path

theorem toList_render_cons (step : Step) (later : Path) :
    (Path.render (step :: later)).toList = step.render.toList ++ later.render.toList := by
  simp [Path.render]

/-- A path with a step begins with a slash. -/
private theorem exists_toList_render_cons (step : Step) (later : Path) :
    ∃ rest, (Path.render (step :: later)).toList = '/' :: rest := by
  have hslash : ∃ rest, step.axis.text.toList = '/' :: rest := by
    cases step.axis with
    | descendant => exact ⟨['/'], rfl⟩
    | child => exact ⟨[], rfl⟩
  obtain ⟨rest, hrest⟩ := hslash
  simp [toList_render_cons, Step.render, hrest]

theorem endsStep_render (path : Path) : EndsStep path.render.toList := by
  cases path with
  | nil => rintro c ⟨⟩
  | cons step later =>
    obtain ⟨rest, hrest⟩ := exists_toList_render_cons step later
    rw [hrest]
    rintro c ⟨⟩
    rfl

end XPath.Path

namespace Segment

/-- The path of a segment and what follows it has text. -/
private theorem toList_render_path_ne_nil {axis : Axis} {segment : Segment} {rest : List Segment}
    {path : Path} (h : Segment.path axis (segment :: rest) = .ok path) :
    path.render.toList ≠ [] := by
  obtain ⟨step, later, _, _, rfl⟩ := Segment.path_cons_eq_ok_iff.mp h
  obtain ⟨text, htext⟩ := Path.exists_toList_render_cons step later
  rw [htext]
  exact List.cons_ne_nil _ _

theorem child_eq_of_nextAxis_eq {segment other : Segment}
    (h : segment.nextAxis = other.nextAxis) : segment.child = other.child := by
  have hsame : ∀ first second : Bool, (if first then Axis.child else .descendant) =
      (if second then Axis.child else .descendant) → first = second := by
    decide
  exact hsame _ _ h

/-- The relations between segments: the one after the last segment is left out. -/
def relations (segments : List Segment) : List Bool :=
  (segments.map Segment.child).dropLast

/-- The text of a path shows the axis of its first step, its segments, and the relations between
them. -/
theorem path_render_inj {segments others : List Segment} {axis otherAxis : Axis}
    {path otherPath : Path} (hfirst : ∀ segment ∈ segments, segment.IsShowable)
    (hsecond : ∀ segment ∈ others, segment.IsShowable)
    (hpath : Segment.path axis segments = .ok path)
    (hother : Segment.path otherAxis others = .ok otherPath)
    (h : path.render.toList = otherPath.render.toList) :
    (segments ≠ [] → axis = otherAxis) ∧ segments.map shown = others.map shown ∧
      relations segments = relations others := by
  induction segments generalizing others axis otherAxis path otherPath with
  | nil =>
    cases hpath
    cases others with
    | nil => exact ⟨fun hne ↦ absurd rfl hne, rfl, rfl⟩
    | cons other others => exact absurd h.symm (toList_render_path_ne_nil hother)
  | cons segment segments ih =>
    cases others with
    | nil =>
      cases hother
      exact absurd h (toList_render_path_ne_nil hpath)
    | cons other others =>
      obtain ⟨step, later, hstep, hlater, rfl⟩ := Segment.path_cons_eq_ok_iff.mp hpath
      obtain ⟨otherStep, otherLater, hotherStep, hotherLater, rfl⟩ :=
        Segment.path_cons_eq_ok_iff.mp hother
      obtain ⟨hsegment, hsegments⟩ := List.forall_mem_cons.mp hfirst
      obtain ⟨hsecond, hothers⟩ := List.forall_mem_cons.mp hsecond
      rw [Path.toList_render_cons, Path.toList_render_cons] at h
      obtain ⟨haxis, hshown, hrest⟩ := hsegment.step_append_inj hsecond hstep hotherStep
        later.endsStep_render otherLater.endsStep_render h
      obtain ⟨hnext, hchain, hrelations⟩ := ih hsegments hothers hlater hotherLater hrest
      refine ⟨fun _ ↦ haxis, by rw [List.map_cons, List.map_cons, hshown, hchain], ?_⟩
      -- The axis of the next step shows the relation, if there is a next step.
      cases segments with
      | nil =>
        cases others with
        | nil => rfl
        | cons next others => cases hchain
      | cons next segments =>
        cases others with
        | nil => cases hchain
        | cons otherNext others =>
          have hchild := child_eq_of_nextAxis_eq (hnext (List.cons_ne_nil _ _))
          exact congrArg₂ List.cons hchild hrelations

end Segment

/-- A segment that was read can be shown when its attributes are plain. -/
private theorem Reading.isShowable_of_mem {text : List Char} {segment : Segment}
    (h : segment ∈ (ofChars text).segments) (hplain : segment.PlainAttributes) :
    segment.IsShowable := by
  obtain ⟨parts, hvalid, rfl⟩ := exists_parts_of_mem h
  exact ⟨hvalid.wellFormed, hplain⟩

/-- Two selectors compile to one path only if they are reached by the same axis and are chains of
equal length, with the same tags, ids, classes, attributes and predicates of pseudo-classes, and the
same relations between segments. -/
theorem compileSelector_inj {selector other path : String} {axis otherAxis : Axis}
    (hpath : compileSelector selector axis = .ok path)
    (hother : compileSelector other otherAxis = .ok path) :
    ∃ segments others, Segment.readAll selector = .ok segments ∧
      Segment.readAll other = .ok others ∧
      ((∀ segment ∈ segments, segment.PlainAttributes) →
        (∀ segment ∈ others, segment.PlainAttributes) →
          axis = otherAxis ∧ segments.map Segment.shown = others.map Segment.shown ∧
            Segment.relations segments = Segment.relations others) := by
  obtain ⟨hstuck, steps, hsteps, htext⟩ := compileSelector_eq_ok_iff.mp hpath
  obtain ⟨hotherStuck, otherSteps, hotherSteps, hotherText⟩ := compileSelector_eq_ok_iff.mp hother
  refine ⟨_, _, Reading.chain_eq_ok_iff.mpr ⟨hstuck, rfl⟩,
    Reading.chain_eq_ok_iff.mpr ⟨hotherStuck, rfl⟩, ?_⟩
  intro hplain hotherPlain
  obtain ⟨haxis, hshown, hrelations⟩ := Segment.path_render_inj
    (fun segment hmem ↦ Reading.isShowable_of_mem hmem (hplain segment hmem))
    (fun segment hmem ↦ Reading.isShowable_of_mem hmem (hotherPlain segment hmem))
    hsteps hotherSteps (by rw [htext, hotherText])
  exact ⟨haxis (Reading.segments_ne_nil hstuck), hshown, hrelations⟩

/-- A value that looks like the joint between two conditions, next to a position that is written in
two ways. Only the first selector has a relation after its last segment. -/
theorem compileSelector_inj_of_menu :
    let path := "//ul/li[(@x=\") and (\") and ((position() -1) mod 2 = 0 and position() >= 1)]"
    let first : List Segment := [⟨"ul>", "ul", none, [], .empty, none, true⟩,
      ⟨"li[x=) and (]:nth-child(odd) >", "li", none, [], .ofList [("x", some ") and (")],
        some ⟨"nth-child", some "odd"⟩, true⟩]
    let second : List Segment := [⟨"ul >", "ul", none, [], .empty, none, true⟩,
      ⟨"li[x=) and (]:nth-child(2n+1)", "li", none, [], .ofList [("x", some ") and (")],
        some ⟨"nth-child", some "2n+1"⟩, false⟩]
    compileSelector "ul>li[x=) and (]:nth-child(odd) >" .descendant = .ok path ∧
      compileSelector "ul > li[x=) and (]:nth-child(2n+1)" .descendant = .ok path ∧
      (∀ segment ∈ first, segment.PlainAttributes) ∧
      (∀ segment ∈ second, segment.PlainAttributes) ∧
      first.map Segment.shown = second.map Segment.shown ∧
      Segment.relations first = Segment.relations second := by
  intro path first second
  have hpath : compileSelector "ul>li[x=) and (]:nth-child(odd) >" .descendant = .ok path := by
    decide +kernel
  have hother : compileSelector "ul > li[x=) and (]:nth-child(2n+1)" .descendant = .ok path := by
    decide +kernel
  have hread : Segment.readAll "ul>li[x=) and (]:nth-child(odd) >" = .ok first := by
    decide +kernel
  have hreadOther : Segment.readAll "ul > li[x=) and (]:nth-child(2n+1)" = .ok second := by
    decide +kernel
  have hplain : ∀ segment ∈ first, segment.PlainAttributes := by decide +kernel
  have hotherPlain : ∀ segment ∈ second, segment.PlainAttributes := by decide +kernel
  obtain ⟨segments, others, hsegments, hothers, hinj⟩ := compileSelector_inj hpath hother
  cases hread.symm.trans hsegments
  cases hreadOther.symm.trans hothers
  exact ⟨hpath, hother, hplain, hotherPlain, (hinj hplain hotherPlain).2⟩

/-- The name of an attribute that is no run can stand for two attributes. -/
example : compileSelector "a[p][x) and (@y]" .child = compileSelector "a[p][x][y]" .child := by
  decide +kernel

end SelectorCompiler
