import SelectorCompiler.Compilation.Path
import SelectorCompiler.Proofs.Compilation.Conditions

/-!
# The meaning of a compiled selector

A selector describes elements from right to left: the element itself by the last segment, and its
parent or some ancestor by the segments before. A path goes the other way and pushes a set of nodes
from the document node down. Both find the same elements, by induction on the chain from its last
segment: what the path without its last step has found is where the last step starts.

The relation that ends a segment is the axis of the next step, so the induction is on two adjacent
segments at a time.
-/

namespace SelectorCompiler

open Text XPath

/-! ## The selector, from right to left -/

/-- The element has the type that the segment names, and fits it. -/
def Segment.Describes (segment : Segment) (element : Element) : Prop :=
  (segment.tag = universalTag ∨ segment.tag = element.name) ∧ segment.Fits element

namespace Document

/-- The node is an element that the segment describes. -/
def Describes (document : Document) (segment : Segment) (node : Address) : Prop :=
  ∃ element, document.element? node = some element ∧ segment.Describes element

/-- The node matches a chain of segments, given from the last to the first. -/
def Matches (document : Document) : List Segment → Address → Prop
  | [], _ => False
  | [segment], node => document.Describes segment node
  | segment :: previous :: earlier, node =>
    document.Describes segment node ∧
      if previous.child then document.Matches (previous :: earlier) node.parent
      else ∃ ancestor, Address.IsAncestor ancestor node ∧
        document.Matches (previous :: earlier) ancestor

end Document

namespace Segment

/-! ## The path, from left to right -/

/-- The step of a segment without a pseudo-class. -/
def elementStep (axis : Axis) (segment : Segment) : Step :=
  ⟨axis, segment.tag, Expr.conjunction? segment.elementConditions⟩

/-- The steps of a chain of segments without pseudo-classes. -/
def steps (axis : Axis) (segments : List Segment) : Path :=
  List.zipWith elementStep (axis :: segments.map nextAxis) segments

/-- The texts of the tests for the id, the attributes and the classes. -/
def tests (segment : Segment) : List String :=
  segment.id.toList.map (fun id ↦ "@id='" ++ id ++ "'") ++
    segment.attributes.entries.map (fun entry ↦
      match entry with
      | (name, none) => "@" ++ name
      | (name, some value) => "@" ++ name ++ "=\"" ++ value ++ "\"") ++
    segment.classes.map fun name ↦
      "contains(concat(\" \", normalize-space(@class), \" \"), \" " ++ name ++ " \")"

/-- Tests in brackets: one as it is, several each in parentheses. -/
def bracketed : List String → String
  | [] => ""
  | [test] => "[" ++ test ++ "]"
  | tests => "[" ++ " and ".intercalate (tests.map fun test ↦ "(" ++ test ++ ")") ++ "]"

/-- The text of the step of a segment without a pseudo-class: two slashes to a descendant, one to a
child, the tag, and the tests. -/
def stepText (axis : Axis) (segment : Segment) : String :=
  let slashes := match axis with
    | .descendant => "//"
    | .child => "/"
  slashes ++ segment.tag ++ bracketed segment.tests

theorem path_eq_ok_steps {axis : Axis} {segments : List Segment}
    (hpseudo : ∀ segment ∈ segments, segment.pseudo = none) :
    Segment.path axis segments = .ok (steps axis segments) := by
  induction segments generalizing axis with
  | nil => rfl
  | cons segment rest ih =>
    have hstep : segment.step axis = .ok (segment.elementStep axis) := by
      rw [step, conditions, hpseudo segment List.mem_cons_self]
      rfl
    rw [Segment.path, hstep, ih fun later hmem ↦ hpseudo later (List.mem_cons_of_mem _ hmem)]
    rfl

theorem steps_concat (axis : Axis) (front : List Segment) (previous segment : Segment) :
    steps axis (front ++ [previous, segment]) =
      steps axis (front ++ [previous]) ++ [segment.elementStep previous.nextAxis] := by
  induction front generalizing axis with
  | nil => rfl
  | cons first front ih =>
    have happly := ih first.nextAxis
    rw [steps, steps] at happly
    rw [steps, steps, List.cons_append, List.cons_append, List.map_cons, List.map_cons,
      List.zipWith_cons_cons, List.zipWith_cons_cons, happly, List.cons_append]

/-- The text of the test for a class. -/
theorem render_classPredicate (name : String) :
    (classPredicate name).render =
      "contains(concat(\" \", normalize-space(@class), \" \"), \" " ++ name ++ " \")" := by
  have hfront : "contains(concat(\" \", normalize-space(@class), \" \"), \" " =
      "contains(" ++ (Expr.concat (.literal .double " ") (.normalizeSpace (.attribute "class"))
        (.literal .double " ")).render ++ ", " ++ "\"" ++ " " := by
    decide +kernel
  have hback : " \")" = " " ++ "\"" ++ ")" := by decide +kernel
  change "contains(" ++ Expr.render _ ++ ", " ++ ("\"" ++ (" " ++ name ++ " ") ++ "\"") ++ ")" = _
  rw [hfront, hback]
  simp only [String.append_assoc]

private theorem render_attributePredicate (name : String) (required : Option String) :
    (attributePredicate name required).render =
      match (name, required) with
      | (name, none) => "@" ++ name
      | (name, some value) => "@" ++ name ++ "=\"" ++ value ++ "\"" := by
  cases required with
  | none => rfl
  | some value =>
    have hmark : "=\"" = "=" ++ "\"" := by decide +kernel
    change "@" ++ name ++ "=" ++ ("\"" ++ value ++ "\"") = "@" ++ name ++ "=\"" ++ value ++ "\""
    rw [hmark]
    simp only [String.append_assoc]

private theorem render_idTest (id : String) :
    (Expr.equal (.attribute "id") (.literal .single id)).render = "@id='" ++ id ++ "'" := by
  have hmark : "@id='" = "@" ++ "id" ++ "=" ++ "'" := by decide +kernel
  change "@" ++ "id" ++ "=" ++ ("'" ++ id ++ "'") = _
  rw [hmark]
  simp only [String.append_assoc]

private theorem map_render_elementConditions (segment : Segment) :
    segment.elementConditions.map Expr.render = segment.tests := by
  simp only [elementConditions, tests, List.map_append, List.map_map, Function.comp_def,
    render_classPredicate, render_attributePredicate, render_idTest]

private theorem render_foldl_both (first : Expr) (rest : List Expr) :
    (rest.foldl (fun joined next ↦ Expr.both joined (.group next)) first).render =
      " and ".intercalate (first.render :: rest.map fun next ↦ "(" ++ next.render ++ ")") := by
  induction rest generalizing first with
  | nil => simp
  | cons next rest ih =>
    rw [List.foldl_cons, ih, List.map_cons, String.intercalate_cons_cons]
    exact String.intercalate_cons_append

/-- The text of a step with several conditions. -/
theorem render_conjunction (axis : Axis) (name : String) (conditions : List Expr) :
    Step.render ⟨axis, name, Expr.conjunction? conditions⟩ =
      axis.text ++ name ++ bracketed (conditions.map Expr.render) := by
  rcases conditions with _ | ⟨first, _ | ⟨second, rest⟩⟩
  · rfl
  · rfl
  · change axis.text ++ name ++
      ("[" ++ (List.foldl _ (Expr.group first) (second :: rest)).render ++ "]") = _
    rw [render_foldl_both]
    simp only [bracketed, List.map_cons, List.map_map]
    rfl

theorem render_elementStep (axis : Axis) (segment : Segment) :
    (segment.elementStep axis).render = segment.stepText axis := by
  rw [elementStep, render_conjunction, map_render_elementConditions]
  cases axis <;> rfl

private theorem keeps_elementStep_iff {segment : Segment} {axis : Axis} {siblings : List Element}
    {place : Nat} {element : Element} (hnames : anyName ∉ segment.attributes.keys)
    (hclasses : segment.ClassesAreWords) :
    (segment.elementStep axis).keeps siblings place element = true ↔ segment.Describes element := by
  have hfits := holdsAt_elementConditions_iff
    ((segment.elementStep axis).context siblings place element)
    ((segment.elementStep axis).context siblings place element).position hnames hclasses
  rw [Step.keeps, Bool.and_eq_true, Describes, Step.namesElement, Bool.or_eq_true,
    decide_eq_true_eq, decide_eq_true_eq]
  exact and_congr_right' hfits

/-- The step of a segment finds the elements that the segment describes, where its axis leads. -/
theorem mem_select_elementStep_iff {segment : Segment} {axis : Axis} {document : Document}
    {origins : Finset Address} {node : Address} (hnames : anyName ∉ segment.attributes.keys)
    (hclasses : segment.ClassesAreWords) :
    node ∈ (segment.elementStep axis).select document origins ↔
      document.Describes segment node ∧ ∃ origin ∈ origins, axis.Leads origin node := by
  rw [Step.mem_select_iff, Document.Describes]
  constructor
  · rintro ⟨element, helement, hkeeps, hleads⟩
    rw [keeps_elementStep_iff hnames hclasses] at hkeeps
    exact ⟨⟨element, helement, hkeeps⟩, hleads⟩
  · rintro ⟨⟨element, helement, hdescribes⟩, hleads⟩
    rw [← keeps_elementStep_iff hnames hclasses] at hdescribes
    exact ⟨element, helement, hdescribes, hleads⟩

end Segment

/-! ## Both find the same elements -/

/-- The path of a chain finds the elements that match the chain. -/
theorem Document.mem_select_steps_iff {document : Document} {chain : List Segment}
    (hchain : chain ≠ [])
    (hplain : ∀ segment ∈ chain, anyName ∉ segment.attributes.keys ∧ segment.ClassesAreWords)
    (node : Address) :
    node ∈ (Segment.steps .descendant chain.reverse).select document {[]} ↔
      document.Matches chain node := by
  induction chain generalizing node with
  | nil => exact absurd rfl hchain
  | cons segment rest ih =>
    have hsegment := hplain segment List.mem_cons_self
    cases rest with
    | nil =>
      change node ∈ (segment.elementStep .descendant).select document {[]} ↔ _
      rw [Segment.mem_select_elementStep_iff hsegment.1 hsegment.2, Matches]
      apply and_iff_left_of_imp
      rintro ⟨element, helement, _⟩
      refine ⟨[], Finset.mem_singleton_self [], List.nil_suffix, ?_⟩
      rintro rfl
      cases helement
    | cons previous earlier =>
      have hearlier := ih (List.cons_ne_nil _ _) fun other hmem ↦
        hplain other (List.mem_cons_of_mem _ hmem)
      have hsteps : Segment.steps .descendant (segment :: previous :: earlier).reverse =
          Segment.steps .descendant (previous :: earlier).reverse ++
            [segment.elementStep previous.nextAxis] := by
        simpa using Segment.steps_concat .descendant earlier.reverse previous segment
      rw [hsteps, Path.select_concat, Segment.mem_select_elementStep_iff hsegment.1 hsegment.2,
        Matches]
      apply and_congr_right'
      simp only [hearlier]
      -- The relation that ends the previous segment decides both the axis and the way up.
      by_cases hchild : previous.child = true
      · rw [Segment.nextAxis, if_pos hchild, if_pos hchild]
        exact exists_eq_right
      · rw [Segment.nextAxis, if_neg hchild, if_neg hchild]
        exact exists_congr fun ancestor ↦ and_comm

/-- A selector without pseudo-classes is compiled to the path of its segments, written out in
`Segment.stepText`, and this path finds the elements that match the selector in every document. Each
segment after the first is reached by the relation that ends the segment before it. In a path an
attribute called `*` would stand for any, so there must be none. -/
theorem compileSelector_finds_matches {selector : String} {segments : List Segment}
    (hread : Segment.readAll selector = .ok segments)
    (hpseudo : ∀ segment ∈ segments, segment.pseudo = none)
    (hnames : ∀ segment ∈ segments, anyName ∉ segment.attributes.keys) :
    compileSelector selector .descendant = .ok (Segment.steps .descendant segments).render ∧
    (Segment.steps .descendant segments).render =
      String.join (List.zipWith Segment.stepText (.descendant :: segments.map Segment.nextAxis)
        segments) ∧
    ∀ (document : Document) (node : Address),
      node ∈ (Segment.steps .descendant segments).select document {[]} ↔
        document.Matches segments.reverse node := by
  rcases Reading.chain_eq_ok_iff.mp hread with ⟨hstuck, rfl⟩
  refine ⟨?_, ?_, ?_⟩
  · rw [compileSelector, Reading.path, Segment.path_eq_ok_steps hpseudo, Reading.error?, hstuck]
    rfl
  · rw [Path.render, Segment.steps, List.map_zipWith]
    simp only [Segment.render_elementStep]
  · intro document node
    have hchain : (Reading.ofSelector selector).segments.reverse ≠ [] := by
      rw [Ne, List.reverse_eq_nil_iff]
      exact Reading.segments_ne_nil hstuck
    have hplain : ∀ segment ∈ (Reading.ofSelector selector).segments.reverse,
        anyName ∉ segment.attributes.keys ∧ segment.ClassesAreWords := by
      intro segment hmem
      rw [List.mem_reverse] at hmem
      exact ⟨hnames segment hmem, Reading.classesAreWords_of_mem hmem⟩
    rw [← Document.mem_select_steps_iff hchain hplain, List.reverse_reverse]

/-- A child, a descendant, an id, an attribute and one of two classes, in a menu with two links. -/
theorem compileSelector_finds_matches_of_menu :
    let segments : List Segment :=
      [⟨"ul#menu >", "ul", some "menu", [], .empty, none, true⟩,
        ⟨"li.open ", "li", none, ["open"], .empty, none, false⟩,
        ⟨"a[rel=next]", "a", none, [], .ofList [("rel", some "next")], none, false⟩]
    let link : Element := .mk "a" (.ofList [("rel", "next")]) []
    let menu : Document :=
      ⟨[.mk "ul" (.ofList [("id", "menu")])
        [.mk "li" (.ofList [("class", "wide\topen")]) [link], .mk "li" .empty [link]]]⟩
    Segment.readAll "ul#menu > li.open a[rel=next]" = .ok segments ∧
      (∀ segment ∈ segments, segment.pseudo = none) ∧
      (∀ segment ∈ segments, anyName ∉ segment.attributes.keys) ∧
      compileSelector "ul#menu > li.open a[rel=next]" .descendant =
        .ok (Segment.steps .descendant segments).render ∧
      (Segment.steps .descendant segments).render =
        "//ul[@id='menu']/li" ++
          "[contains(concat(\" \", normalize-space(@class), \" \"), \" open \")]" ++
          "//a[@rel=\"next\"]" ∧
      menu.Matches segments.reverse [0, 0, 0] ∧ ¬menu.Matches segments.reverse [0, 1, 0] := by
  intro segments link menu
  have hread : Segment.readAll "ul#menu > li.open a[rel=next]" = .ok segments := by decide +kernel
  have hpseudo : ∀ segment ∈ segments, segment.pseudo = none := by decide
  have hnames : ∀ segment ∈ segments, anyName ∉ segment.attributes.keys := by decide +kernel
  have hmeaning := compileSelector_finds_matches hread hpseudo hnames
  refine ⟨hread, hpseudo, hnames, hmeaning.1, ?_, ?_, ?_⟩
  · rw [hmeaning.2.1]
    decide +kernel
  · rw [← hmeaning.2.2]
    decide +kernel
  · rw [← hmeaning.2.2]
    decide +kernel

end SelectorCompiler
