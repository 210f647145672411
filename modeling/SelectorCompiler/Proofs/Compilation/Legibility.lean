import SelectorCompiler.Proofs.Compilation.Meaning
import SelectorCompiler.Proofs.Selector.Locality
import SelectorCompiler.Proofs.Selector.WellFormed

/-!
# Steps can be told from their text

Paths are written without escapes, and the value of an attribute may hold parentheses, slashes or
the word `and`. Still the text of a step shows its axis, its name and its conditions, and where it
ends. Every statement here has the same form: when two texts, each with something after it, are
equal, the things they are the texts of are equal, and so is what comes after.

A value ends at its quotation mark and a predicate at its bracket. Between the brackets one
condition stands alone while several are put in parentheses; `regroup` brings both to the second
form. It can tell them apart because a test begins with `@` or with the name of a function, and a
position does not, not even behind a parenthesis.
-/

namespace SelectorCompiler

open Text XPath

/-! ## Two ways to end a text -/

namespace Text

variable {front other rest later : List Char}

/-- A run ends at the first character that does not belong to it. -/
theorem append_inj_of_run {fits : Char → Bool} (hfront : ∀ c ∈ front, fits c = true)
    (hother : ∀ c ∈ other, fits c = true) (hrest : StopsAt fits rest) (hlater : StopsAt fits later)
    (h : front ++ rest = other ++ later) : front = other ∧ rest = later := by
  have hfirst := takeWhile_run hfront hrest
  have hsecond := takeWhile_run hother hlater
  rw [h] at hfirst
  exact ⟨hfirst.1.symm.trans hsecond.1, hfirst.2.symm.trans hsecond.2⟩

/-- A run holds no character that does not fit. -/
theorem IsRun.not_mem {fits : Char → Bool} {text : String} (h : IsRun fits text) {c : Char}
    (hc : fits c = false) : c ∉ text.toList := by
  intro hmem
  rw [h.2 c hmem] at hc
  cases hc

/-- A character that does not fit stops a class. -/
theorem stopsAt_cons {fits : Char → Bool} {c : Char} (h : fits c = false) (text : List Char) :
    StopsAt fits (c :: text) := by
  intro d hd
  cases hd
  exact h

end Text

/-! ## Tests for attributes and classes -/

/-- The character at both ends of a quoted text. -/
def XPath.Quote.mark : Quote → Char
  | .single => '\''
  | .double => '"'

theorem XPath.Quote.toList_text (quote : Quote) : quote.text.toList = [quote.mark] := by
  cases quote <;> rfl

theorem XPath.Quote.mark_inj {quote other : Quote} (h : quote.mark = other.mark) :
    quote = other := by
  revert h
  cases quote <;> cases other <;> decide

/-- The test for an attribute: that it is there, or that it has a value. -/
def attributeTest (name : String) : Option (Quote × String) → Expr
  | none => .attribute name
  | some (quote, value) => .equal (.attribute name) (.literal quote value)

/-- The tests for an attribute or a class that end where their text shows it: names are runs, and no
value holds its own quotation mark. A bracket in a value would end the predicate. -/
inductive XPath.Expr.IsElementTest : Expr → Prop where
  | hasAttribute {name : String} {required : Option (Quote × String)} (hname : IsRun isIdChar name)
      (hvalue : ∀ quote value, required = some (quote, value) →
        quote.mark ∉ value.toList ∧ ']' ∉ value.toList) :
      IsElementTest (attributeTest name required)
  | hasClass {name : String} (hname : IsRun isIdChar name) : IsElementTest (classPredicate name)

/-- What follows the name in the test for an attribute. -/
private def requirementText : Option (Quote × String) → List Char
  | none => []
  | some (quote, value) => '=' :: quote.mark :: (value.toList ++ [quote.mark])

/-- What stands before the name in the test for a class. -/
private def classFront : List Char :=
  "contains(concat(\" \", normalize-space(@class), \" \"), \" ".toList

private theorem toList_render_attributeTest (name : String) (required : Option (Quote × String)) :
    (attributeTest name required).render.toList =
      '@' :: (name.toList ++ requirementText required) := by
  match required with
  | none =>
    change ("@" ++ name).toList = _
    simp [requirementText]
  | some (quote, value) =>
    change ("@" ++ name ++ "=" ++ (quote.text ++ value ++ quote.text)).toList = _
    simp [requirementText, Quote.toList_text]

private theorem toList_render_classPredicate (name : String) :
    (classPredicate name).render.toList = classFront ++ (name.toList ++ [' ', '"', ')']) := by
  rw [Segment.render_classPredicate, String.toList_append, String.toList_append,
    List.append_assoc]
  rfl

private theorem stopsAt_requirementText (required : Option (Quote × String)) (rest : List Char) :
    StopsAt isIdChar (requirementText required ++ ')' :: rest) := by
  match required with
  | none => exact stopsAt_cons (by decide) rest
  | some (quote, value) => exact stopsAt_cons (by decide) _

private theorem requirementText_append_inj {required other : Option (Quote × String)}
    (hrequired : ∀ quote value, required = some (quote, value) → quote.mark ∉ value.toList)
    (hother : ∀ quote value, other = some (quote, value) → quote.mark ∉ value.toList)
    {rest later : List Char}
    (h : requirementText required ++ ')' :: rest = requirementText other ++ ')' :: later) :
    required = other ∧ rest = later := by
  match required, other with
  | none, none => exact ⟨rfl, (List.cons.inj h).2⟩
  | none, some _ => exact absurd (List.cons.inj h).1 (by decide)
  | some _, none => exact absurd (List.cons.inj h).1 (by decide)
  | some (quote, value), some (otherQuote, otherValue) =>
    simp only [requirementText, List.cons_append, List.append_assoc, List.nil_append,
      List.cons.injEq, true_and] at h
    cases Quote.mark_inj h.1
    have hcut := append_inj_of_mark (hrequired _ _ rfl) (hother _ _ rfl) h.2
    refine ⟨?_, (List.cons.inj hcut.2).2⟩
    rw [String.toList_inj.mp hcut.1]

/-- The text begins as the test for an attribute or a class does. -/
def beginsTest : List Char → Bool
  | c :: _ => c == '@' || c == 'c'
  | [] => false

namespace XPath.Expr.IsElementTest

variable {test other : Expr}

theorem beginsTest_render (h : test.IsElementTest) (rest : List Char) :
    beginsTest (test.render.toList ++ rest) = true := by
  cases h with
  | hasAttribute hname hvalue =>
    rw [toList_render_attributeTest]
    rfl
  | hasClass hname =>
    rw [toList_render_classPredicate]
    rfl

/-- No bracket stands in a test. -/
theorem not_mem_render (h : test.IsElementTest) : ']' ∉ test.render.toList := by
  cases h with
  | @hasAttribute name required hname hvalue =>
    have hletters : ']' ∉ name.toList := hname.not_mem (by decide)
    rw [toList_render_attributeTest]
    match required with
    | none => simpa [requirementText] using hletters
    | some (quote, value) =>
      have hmark : quote.mark ≠ ']' := by cases quote <;> decide
      simp [requirementText, hletters, (hvalue quote value rfl).2, hmark.symm]
  | @hasClass name hname =>
    have hletters : ']' ∉ name.toList := hname.not_mem (by decide)
    have hfront : ']' ∉ classFront := by decide
    rw [toList_render_classPredicate]
    simp [hletters, hfront]

/-- In parentheses a test can be told from the text after it. -/
theorem append_inj (htest : test.IsElementTest) (hother : other.IsElementTest)
    {rest later : List Char}
    (h : test.render.toList ++ ')' :: rest = other.render.toList ++ ')' :: later) :
    test = other ∧ rest = later := by
  cases htest with
  | hasAttribute hname hvalue =>
    cases hother with
    | hasAttribute hname' hvalue' =>
      simp only [toList_render_attributeTest, List.cons_append, List.append_assoc, List.cons.injEq,
        true_and] at h
      have hcut := append_inj_of_run hname.2 hname'.2 (stopsAt_requirementText _ _)
        (stopsAt_requirementText _ _) h
      have htail := requirementText_append_inj (fun quote value heq ↦ (hvalue quote value heq).1)
        (fun quote value heq ↦ (hvalue' quote value heq).1) hcut.2
      refine ⟨?_, htail.2⟩
      rw [String.toList_inj.mp hcut.1, htail.1]
    | hasClass hname' =>
      rw [toList_render_attributeTest, toList_render_classPredicate] at h
      exact absurd (List.cons.inj h).1 (by decide)
  | hasClass hname =>
    cases hother with
    | hasAttribute hname' hvalue' =>
      rw [toList_render_attributeTest, toList_render_classPredicate] at h
      exact absurd (List.cons.inj h).1 (by decide)
    | hasClass hname' =>
      simp only [toList_render_classPredicate, List.append_assoc] at h
      have hcut := append_inj_of_run hname.2 hname'.2 (stopsAt_cons (by decide) _)
        (stopsAt_cons (by decide) _) (List.append_cancel_left h)
      refine ⟨?_, ?_⟩
      · rw [String.toList_inj.mp hcut.1]
      · simpa using hcut.2

end XPath.Expr.IsElementTest

/-! ## Positions -/

/-- A condition on the position that is told from a test by its first characters. -/
structure XPath.Expr.IsPlace (place : Expr) : Prop where
  /-- No bracket stands in it. -/
  bracket : ']' ∉ place.render.toList
  /-- It does not begin as a test. -/
  head : beginsTest place.render.toList = false
  /-- It does not begin as a test in parentheses. -/
  group : ∀ rest, place.render.toList = '(' :: rest → beginsTest rest = false

theorem XPath.Expr.IsPlace.beginsTest_append {place : Expr} (h : place.IsPlace) {c : Char}
    (hc : beginsTest [c] = false) (rest : List Char) :
    beginsTest (place.render.toList ++ c :: rest) = false := by
  have hhead := h.head
  cases hchars : place.render.toList with
  | nil => exact hc
  | cons d text =>
    rw [hchars] at hhead
    exact hhead

/-! ## Conditions in parentheses -/

/-- Tests, and behind them at most one condition on the position. -/
structure Legible (tests : List Expr) (place : Option Expr) : Prop where
  tests : ∀ test ∈ tests, test.IsElementTest
  place : ∀ condition ∈ place, condition.IsPlace

/-- Conditions in parentheses, each with the word that joins it to the one before. -/
def groups (conditions : List Expr) : List Char :=
  conditions.flatMap fun condition ↦ " and (".toList ++ (condition.render.toList ++ [')'])

theorem groups_cons (condition : Expr) (rest : List Expr) :
    groups (condition :: rest) =
      " and (".toList ++ (condition.render.toList ++ ')' :: groups rest) := by
  simp [groups]

private theorem groups_cons_ne_nil (condition : Expr) (rest : List Expr) :
    groups (condition :: rest) ≠ [] := by
  rw [groups_cons]
  exact List.cons_ne_nil _ _

/-- A test is not taken for a position. -/
private theorem groups_test_ne_place {test place : Expr} (htest : test.IsElementTest)
    (hplace : place.IsPlace) (rest later : List Expr) :
    groups (test :: rest) ≠ groups (place :: later) := by
  intro h
  rw [groups_cons, groups_cons] at h
  have hbegins := htest.beginsTest_render (')' :: groups rest)
  rw [List.append_cancel_left h, hplace.beginsTest_append (by decide)] at hbegins
  cases hbegins

/-- Conditions in parentheses show the tests and the text of the position. -/
theorem groups_inj {tests others : List Expr} {place otherPlace : Option Expr}
    (hfirst : Legible tests place) (hsecond : Legible others otherPlace)
    (h : groups (tests ++ place.toList) = groups (others ++ otherPlace.toList)) :
    tests = others ∧ place.map Expr.render = otherPlace.map Expr.render := by
  induction tests generalizing others with
  | nil =>
    cases others with
    | nil =>
      refine ⟨rfl, ?_⟩
      match place, otherPlace with
      | none, none => rfl
      | none, some _ => exact absurd h.symm (groups_cons_ne_nil _ _)
      | some _, none => exact absurd h (groups_cons_ne_nil _ _)
      | some first, some second =>
        change groups [first] = groups [second] at h
        rw [groups_cons, groups_cons] at h
        have htext := List.append_cancel_right (List.append_cancel_left h)
        rw [Option.map_some, Option.map_some, String.toList_inj.mp htext]
    | cons other others =>
      cases place with
      | none => exact absurd h.symm (groups_cons_ne_nil _ _)
      | some first =>
        exact absurd h.symm (groups_test_ne_place (hsecond.tests other List.mem_cons_self)
          (hfirst.place first rfl) _ _)
  | cons test tests ih =>
    cases others with
    | nil =>
      cases otherPlace with
      | none => exact absurd h (groups_cons_ne_nil _ _)
      | some second =>
        exact absurd h (groups_test_ne_place (hfirst.tests test List.mem_cons_self)
          (hsecond.place second rfl) _ _)
    | cons other others =>
      obtain ⟨htest, htests⟩ := List.forall_mem_cons.mp hfirst.tests
      obtain ⟨hother, hothers⟩ := List.forall_mem_cons.mp hsecond.tests
      rw [List.cons_append, List.cons_append, groups_cons, groups_cons] at h
      obtain ⟨rfl, hrest⟩ := htest.append_inj hother (List.append_cancel_left h)
      obtain ⟨rfl, hplace⟩ := ih ⟨htests, hfirst.place⟩ ⟨hothers, hsecond.place⟩ hrest
      exact ⟨rfl, hplace⟩

/-! ## Conditions in brackets -/

/-- Put what stands between brackets into parentheses, unless it is several conditions that are in
parentheses already. -/
def regroup (body : List Char) : List Char :=
  if body.head? = some '(' ∧ beginsTest body.tail = true then " and ".toList ++ body
  else " and (".toList ++ (body ++ [')'])

private theorem toList_intercalate_groups (first : Expr) (rest : List Expr) :
    (" and ".intercalate ((first :: rest).map fun condition ↦
      "(" ++ condition.render ++ ")")).toList =
        '(' :: (first.render.toList ++ ')' :: groups rest) := by
  induction rest generalizing first with
  | nil => simp [groups]
  | cons second rest ih =>
    simp only [List.map_cons] at ih ⊢
    rw [String.intercalate_cons_cons, String.toList_append, ih, groups_cons]
    simp

/-- The text of the conditions in brackets. -/
private theorem toList_bracketed_cons (first second : Expr) (rest : List Expr) :
    (Segment.bracketed ((first :: second :: rest).map Expr.render)).toList =
      '[' :: ('(' :: (first.render.toList ++ ')' :: groups (second :: rest)) ++ [']']) := by
  have htexts := toList_intercalate_groups first (second :: rest)
  simp only [Segment.bracketed, List.map_cons, List.map_map, Function.comp_def,
    String.toList_append] at htexts ⊢
  rw [htexts]
  rfl

namespace Legible

variable {tests : List Expr} {place : Option Expr}

theorem not_mem_render (h : Legible tests place) {condition : Expr}
    (hmem : condition ∈ tests ++ place.toList) : ']' ∉ condition.render.toList := by
  rcases List.mem_append.mp hmem with htest | hplace
  · exact (h.tests condition htest).not_mem_render
  · exact (h.place condition (Option.mem_toList.mp hplace)).bracket

private theorem not_mem_groups {conditions : List Expr}
    (h : ∀ condition ∈ conditions, ']' ∉ condition.render.toList) : ']' ∉ groups conditions := by
  intro hmem
  obtain ⟨condition, hcondition, htext⟩ := List.mem_flatMap.mp hmem
  simp [h condition hcondition] at htext

/-- One condition is not taken for several. -/
private theorem regroup_single (h : Legible tests place) {condition : Expr}
    (hsingle : tests ++ place.toList = [condition]) :
    regroup condition.render.toList = groups [condition] := by
  have hno : ¬(condition.render.toList.head? = some '(' ∧
      beginsTest condition.render.toList.tail = true) := by
    rintro ⟨hhead, htail⟩
    obtain ⟨rest, hrest⟩ := List.head?_eq_some_iff.mp hhead
    have hmem : condition ∈ tests ++ place.toList := by
      rw [hsingle]
      exact List.mem_cons_self
    rcases List.mem_append.mp hmem with htest | hplace
    · have hbegins := (h.tests condition htest).beginsTest_render []
      rw [List.append_nil, hrest] at hbegins
      simp [beginsTest] at hbegins
    · rw [hrest] at htail
      have hgroup := (h.place condition (Option.mem_toList.mp hplace)).group rest hrest
      rw [List.tail_cons, hgroup] at htail
      cases htail
  rw [regroup, if_neg hno, groups_cons]
  rfl

/-- The brackets hold a text without brackets that shows the conditions in parentheses. -/
theorem exists_body (h : Legible tests place) (hne : tests ++ place.toList ≠ []) :
    ∃ body, (Segment.bracketed ((tests ++ place.toList).map Expr.render)).toList =
        '[' :: (body ++ [']']) ∧
      ']' ∉ body ∧ regroup body = groups (tests ++ place.toList) := by
  have hbracket {condition : Expr} (hmem : condition ∈ tests ++ place.toList) :
      ']' ∉ condition.render.toList := h.not_mem_render hmem
  match hconditions : tests ++ place.toList with
  | [] => exact absurd hconditions hne
  | [condition] =>
    refine ⟨condition.render.toList, ?_, ?_, h.regroup_single hconditions⟩
    · simp [Segment.bracketed]
    · exact hbracket (by simp [hconditions])
  | first :: second :: rest =>
    have hfirst : first.IsElementTest := by
      cases tests with
      | nil => cases place <;> cases hconditions
      | cons test tests =>
        rw [← (List.cons.inj hconditions).1]
        exact h.tests test List.mem_cons_self
    refine ⟨_, toList_bracketed_cons first second rest, ?_, ?_⟩
    · rw [hconditions] at hbracket
      have hlater : ']' ∉ groups (second :: rest) :=
        not_mem_groups fun condition hmem ↦ hbracket (List.mem_cons_of_mem _ hmem)
      simp [hbracket List.mem_cons_self, hlater]
    · rw [regroup, if_pos ⟨rfl, hfirst.beginsTest_render _⟩, groups_cons first]
      rfl

end Legible

/-! ## Steps -/

/-- Nothing follows, or another step. -/
def EndsStep (text : List Char) : Prop :=
  ∀ c, text.head? = some c → c = '/'

theorem EndsStep.stopsAt {text : List Char} (h : EndsStep text) {fits : Char → Bool}
    (hfits : fits '/' = false) : StopsAt fits text := by
  intro c hc
  rw [h c hc]
  exact hfits

/-- The brackets show the tests and the text of the position, and where they end. -/
theorem Legible.bracketed_append_inj {tests others : List Expr} {place otherPlace : Option Expr}
    (hfirst : Legible tests place) (hsecond : Legible others otherPlace) {rest later : List Char}
    (hrest : EndsStep rest) (hlater : EndsStep later)
    (h : (Segment.bracketed ((tests ++ place.toList).map Expr.render)).toList ++ rest =
      (Segment.bracketed ((others ++ otherPlace.toList).map Expr.render)).toList ++ later) :
    (tests = others ∧ place.map Expr.render = otherPlace.map Expr.render) ∧ rest = later := by
  have hopen {text body : List Char} (hends : EndsStep text) : text ≠ '[' :: body := by
    rintro rfl
    exact absurd (hends '[' rfl) (by decide)
  by_cases hnil : tests ++ place.toList = []
  · by_cases hnil' : others ++ otherPlace.toList = []
    · have hgroups := hnil.trans hnil'.symm
      rw [hnil, hnil'] at h
      exact ⟨groups_inj hfirst hsecond (congrArg groups hgroups), h⟩
    · obtain ⟨body, hbody, _, _⟩ := hsecond.exists_body hnil'
      rw [hnil, hbody] at h
      exact absurd h (hopen hrest)
  · obtain ⟨body, hbody, hbracket, hgroups⟩ := hfirst.exists_body hnil
    by_cases hnil' : others ++ otherPlace.toList = []
    · rw [hnil', hbody] at h
      exact absurd h.symm (hopen hlater)
    · obtain ⟨body', hbody', hbracket', hgroups'⟩ := hsecond.exists_body hnil'
      rw [hbody, hbody', List.cons_append, List.cons_append, List.append_assoc,
        List.append_assoc] at h
      have hcut := append_inj_of_mark hbracket hbracket' (List.cons.inj h).2
      refine ⟨groups_inj hfirst hsecond ?_, hcut.2⟩
      rw [← hgroups, hcut.1, hgroups']

/-- The slashes in front of a name show the axis. -/
private theorem axis_append_inj {axis other : Axis} {text later : List Char}
    (htext : text.head? ≠ some '/') (hlater : later.head? ≠ some '/')
    (h : axis.text.toList ++ text = other.text.toList ++ later) : axis = other ∧ text = later := by
  cases axis <;> cases other
  · exact ⟨rfl, List.append_cancel_left h⟩
  · have htail : '/' :: text = later := (List.cons.inj h).2
    rw [← htail] at hlater
    exact absurd rfl hlater
  · have htail : text = '/' :: later := (List.cons.inj h).2
    rw [htail] at htext
    exact absurd rfl htext
  · exact ⟨rfl, List.append_cancel_left h⟩

/-- A name does not begin with a slash, whatever follows it. -/
private theorem head?_name_append_ne {name : String} (hname : IsRun isTagChar name)
    (rest : List Char) : (name.toList ++ rest).head? ≠ some '/' := by
  intro hhead
  cases hchars : name.toList with
  | nil => exact hname.1 (String.toList_inj.mp hchars)
  | cons c later =>
    rw [hchars] at hhead
    cases hhead
    have hslash : '/' ∉ name.toList := hname.not_mem (by decide)
    rw [hchars] at hslash
    exact hslash List.mem_cons_self

/-- A name ends where brackets begin or the step ends. -/
private theorem stopsAt_bracketed {texts : List String} {rest : List Char} (hrest : EndsStep rest) :
    StopsAt isTagChar ((Segment.bracketed texts).toList ++ rest) := by
  match texts with
  | [] => exact hrest.stopsAt (by decide)
  | [text] =>
    simp only [Segment.bracketed, String.toList_append]
    exact stopsAt_cons (by decide) _
  | first :: second :: later =>
    simp only [Segment.bracketed, String.toList_append]
    exact stopsAt_cons (by decide) _

/-- The text of a step shows its axis, its name, its tests, the text of its position, and where it
ends. -/
theorem Legible.step_append_inj {axis otherAxis : Axis} {name otherName : String}
    {tests others : List Expr} {place otherPlace : Option Expr}
    (hfirst : Legible tests place) (hsecond : Legible others otherPlace)
    (hname : IsRun isTagChar name) (hotherName : IsRun isTagChar otherName)
    {rest later : List Char} (hrest : EndsStep rest) (hlater : EndsStep later)
    (h : (Step.render ⟨axis, name, Expr.conjunction? (tests ++ place.toList)⟩).toList ++ rest =
      (Step.render ⟨otherAxis, otherName,
        Expr.conjunction? (others ++ otherPlace.toList)⟩).toList ++ later) :
    axis = otherAxis ∧ name = otherName ∧
      (tests = others ∧ place.map Expr.render = otherPlace.map Expr.render) ∧ rest = later := by
  simp only [Segment.render_conjunction, String.toList_append, List.append_assoc] at h
  obtain ⟨rfl, hafter⟩ := axis_append_inj (head?_name_append_ne hname _)
    (head?_name_append_ne hotherName _) h
  have hcut := append_inj_of_run hname.2 hotherName.2 (stopsAt_bracketed hrest)
    (stopsAt_bracketed hlater) hafter
  exact ⟨rfl, String.toList_inj.mp hcut.1,
    hfirst.bracketed_append_inj hsecond hrest hlater hcut.2⟩

end SelectorCompiler
