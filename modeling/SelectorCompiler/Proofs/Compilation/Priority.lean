import SelectorCompiler.Proofs.Compilation.Composition
import SelectorCompiler.Proofs.Selector.Tiling
import SelectorCompiler.Proofs.Selector.WellFormed

/-!
# Which error a selector has

A selector can be compiled while it is read: ask a cursor for a segment, write its step, ask for the
next one, and stop at the first error of either kind. Or it can be read first, as far as that goes,
and compiled afterwards. Both give the same: a segment whose pseudo-class has no predicate is
reported before the place where reading got stuck, since that place is always further right.

The axis of the first step has no part in this. It is written in front of the path, and
`Segment.path_eq_map_reach` says that nothing else depends on it.
-/

namespace SelectorCompiler

open Text XPath

/-! ## Compiling while reading -/

namespace Cursor

/-- At a text that begins with no segment a cursor gives an error. -/
theorem next_of_text_eq_nil {cursor : Cursor} (h : cursor.done = false)
    (hnothing : (Parts.read cursor.rest).1.text = []) :
    cursor.next = (some (.error (.invalidSelector (String.ofList cursor.rest))),
      ⟨cursor.rest, true, true⟩) := by
  rw [next, h]
  exact if_pos hnothing

/-- Otherwise it gives the segment and goes on behind it. -/
theorem next_of_text_ne_nil {cursor : Cursor} (h : cursor.done = false)
    (hsome : (Parts.read cursor.rest).1.text ≠ []) :
    cursor.next = (some (.ok (Parts.read cursor.rest).1.segment),
      ⟨trimStart (Parts.read cursor.rest).2, true, false⟩) := by
  rw [next, h]
  exact if_neg hsome

/-- A cursor that gave a segment has less to read. -/
theorem length_rest_lt_of_next {cursor later : Cursor} {segment : Segment}
    (h : cursor.next = (some (.ok segment), later)) : later.rest.length < cursor.rest.length := by
  cases hdone : cursor.done with
  | true =>
    rw [next, if_pos hdone] at h
    cases h
  | false =>
    by_cases hsome : (Parts.read cursor.rest).1.text = []
    · rw [next_of_text_eq_nil hdone hsome] at h
      cases h
    · rw [next_of_text_ne_nil hdone hsome] at h
      cases h
      have hstart := (trimStart_suffix (Parts.read cursor.rest).2).length_le
      exact Nat.lt_of_le_of_lt hstart (Parts.length_rest_lt hsome)

/-- Write the steps of the segments that a cursor gives behind a text. Each step is written before
the next segment is asked for, and the first error ends the work. -/
def compile (cursor : Cursor) (axis : Axis) (text : String) : Except CompileError String :=
  match _h : cursor.next with
  | (none, _) => .ok text
  | (some (.error error), _) => .error error
  | (some (.ok segment), later) =>
    (segment.step axis).bind fun step ↦ later.compile segment.nextAxis (text ++ step.render)
termination_by cursor.rest.length
decreasing_by exact length_rest_lt_of_next _h

section Equations

variable {cursor later : Cursor} (axis : Axis) (text : String)

theorem compile_of_next_none (h : cursor.next.1 = none) :
    cursor.compile axis text = .ok text := by
  rw [compile]
  split
  · rfl
  · next hnext => rw [hnext] at h; cases h
  · next hnext => rw [hnext] at h; cases h

theorem compile_of_next_error {error : CompileError}
    (h : cursor.next = (some (.error error), later)) :
    cursor.compile axis text = .error error := by
  rw [compile]
  split
  · next hnext => rw [h] at hnext; cases hnext
  · next hnext => rw [h] at hnext; cases hnext; rfl
  · next hnext => rw [h] at hnext; cases hnext

theorem compile_of_next_ok {segment : Segment} (h : cursor.next = (some (.ok segment), later)) :
    cursor.compile axis text =
      (segment.step axis).bind fun step ↦
        later.compile segment.nextAxis (text ++ step.render) := by
  rw [compile]
  split
  · next hnext => rw [h] at hnext; cases hnext
  · next hnext => rw [h] at hnext; cases hnext
  · next hnext => rw [h] at hnext; cases hnext; rfl

end Equations

end Cursor

/-- The path of a reading is the step of its first segment and the path of what is read after it,
with the error of that. -/
theorem Reading.path_cons (segment : Segment) (later : Reading) (axis : Axis) :
    Reading.path ⟨segment :: later.segments, later.stuck⟩ axis =
      (segment.step axis).bind fun step ↦ (later.path segment.nextAxis).map (step :: ·) := by
  obtain ⟨segments, stuck⟩ := later
  rw [Reading.path, Segment.path_cons, Reading.path]
  cases segment.step axis with
  | error error => rfl
  | ok step =>
    cases Segment.path segment.nextAxis segments with
    | error error => rfl
    | ok path => cases stuck <;> rfl

theorem XPath.Path.render_cons (step : Step) (later : Path) :
    Path.render (step :: later) = step.render ++ later.render := by
  simp [Path.render]

/-- A cursor that has something left writes the path of what it has left. -/
theorem Cursor.compile_of_not_done {cursor : Cursor} (h : cursor.done = false) (axis : Axis)
    (text : String) :
    cursor.compile axis text =
      ((Reading.ofChars cursor.rest).path axis).map fun path ↦ text ++ path.render := by
  obtain ⟨rest, started, failed⟩ := cursor
  change _ = ((Reading.ofChars rest).path axis).map _
  -- The induction follows the reading; the axis and the text written so far are left open.
  fun_induction Reading.ofChars rest generalizing started failed axis text with
  | case1 rest cut hnothing =>
    rw [compile_of_next_error axis text (next_of_text_eq_nil h hnothing)]
    rfl
  | case2 rest cut later hsome hlast =>
    have hdone : (Cursor.mk later true false).next.1 = none := by rw [hlast]; rfl
    rw [compile_of_next_ok axis text (next_of_text_ne_nil h hsome), Reading.path, Segment.path_cons]
    cases cut.1.segment.step axis with
    | error error => rfl
    | ok step => exact compile_of_next_none _ _ hdone
  | case3 rest cut later hsome hmore reading ih =>
    have hnotDone : (Cursor.mk later true false).done = false := by simpa [done] using hmore
    rw [compile_of_next_ok axis text (next_of_text_ne_nil h hsome), Reading.path_cons]
    cases cut.1.segment.step axis with
    | error error => rfl
    | ok step =>
      refine (ih _ _ true false hnotDone).trans ?_
      cases reading.path cut.1.segment.nextAxis with
      | error error => rfl
      | ok path =>
        apply congrArg Except.ok
        change text ++ step.render ++ path.render = text ++ Path.render (step :: path)
        rw [Path.render_cons, String.append_assoc]

/-- Compiling a selector while it is read gives what compiling it afterwards gives. -/
theorem Cursor.compile_ofSelector (selector : String) (axis : Axis) :
    (ofSelector selector).compile axis "" = compileSelector selector axis := by
  rw [Cursor.compile_of_not_done rfl, compileSelector]
  simp only [String.empty_append]
  rfl

/-! ## Segments with a step -/

namespace Segment

/-- The pseudo-class of the segment, if it has one, has a predicate. -/
def Translates (segment : Segment) : Prop :=
  ∀ pseudo ∈ segment.pseudo, ∃ place, pseudo.predicate = .ok place

variable {segment : Segment} {segments : List Segment} {axis : Axis}

/-- A pseudo-class without a predicate is all that can be wrong with a segment. -/
theorem step_of_rejected {pseudo : PseudoClass} (hpseudo : segment.pseudo = some pseudo)
    {error : CompileError} (h : pseudo.predicate = .error error) (axis : Axis) :
    segment.step axis = .error error := by
  rw [step, conditions, hpseudo]
  simp only [h]
  rfl

theorem translates_iff_exists_step (axis : Axis) :
    segment.Translates ↔ ∃ step, segment.step axis = .ok step := by
  cases hpseudo : segment.pseudo with
  | none => simp [Translates, step, conditions, hpseudo, Except.map]
  | some pseudo =>
    cases hplace : pseudo.predicate with
    | error error => simp [Translates, hpseudo, hplace, step_of_rejected hpseudo hplace]
    | ok place => simp [Translates, step, conditions, hpseudo, hplace, Except.map]

/-- A chain has a path when every segment has a step. -/
theorem exists_path_iff (axis : Axis) :
    (∃ path, Segment.path axis segments = .ok path) ↔ ∀ segment ∈ segments, segment.Translates := by
  induction segments generalizing axis with
  | nil => simp [Segment.path]
  | cons segment rest ih =>
    rw [List.forall_mem_cons, translates_iff_exists_step axis, ← ih segment.nextAxis]
    simp only [path_cons_eq_ok_iff]
    constructor
    · rintro ⟨_, step, later, hstep, hlater, _⟩
      exact ⟨⟨step, hstep⟩, later, hlater⟩
    · rintro ⟨⟨step, hstep⟩, later, hlater⟩
      exact ⟨_, step, later, hstep, hlater, rfl⟩

/-- The first segment without a step gives the error of the chain. -/
theorem path_of_rejected {before after : List Segment}
    (hbefore : ∀ earlier ∈ before, earlier.Translates) {error : CompileError}
    (h : ∀ axis, segment.step axis = .error error) :
    Segment.path axis (before ++ segment :: after) = .error error := by
  induction before generalizing axis with
  | nil =>
    rw [List.nil_append, path_cons, h]
    rfl
  | cons earlier before ih =>
    obtain ⟨hearlier, hrest⟩ := List.forall_mem_cons.mp hbefore
    obtain ⟨step, hstep⟩ := (translates_iff_exists_step axis).mp hearlier
    rw [List.cons_append, path_cons, hstep, ih hrest]
    rfl

/-- The steps of a chain, each reached as the segment before it says. -/
theorem zipWith_step_of_path {path : Path} (h : Segment.path axis segments = .ok path) :
    List.zipWith (fun axis segment ↦ segment.step axis)
      (axis :: segments.map Segment.nextAxis) segments = path.map .ok := by
  induction segments generalizing axis path with
  | nil =>
    cases h
    rfl
  | cons segment rest ih =>
    obtain ⟨step, later, hstep, hlater, rfl⟩ := path_cons_eq_ok_iff.mp h
    rw [List.map_cons, List.zipWith_cons_cons, hstep, ih hlater]
    rfl

end Segment

/-! ## The axis of the first step -/

/-- The path with its first step reached by another axis. -/
def XPath.Path.reach (axis : Axis) : Path → Path
  | [] => []
  | step :: later => { step with axis } :: later

/-- Only the first step depends on the axis. -/
theorem Segment.path_eq_map_reach (axis other : Axis) (segments : List Segment) :
    Segment.path axis segments = (Segment.path other segments).map (Path.reach axis) := by
  cases segments with
  | nil => rfl
  | cons segment rest =>
    rw [Segment.path_cons, Segment.path_cons, Segment.step, Segment.step]
    cases segment.conditions with
    | error error => rfl
    | ok conditions => cases Segment.path segment.nextAxis rest <;> rfl

theorem Reading.path_eq_map_reach (axis other : Axis) (reading : Reading) :
    reading.path axis = (reading.path other).map (Path.reach axis) := by
  rw [Reading.path, Segment.path_eq_map_reach axis other, Reading.path]
  cases Segment.path other reading.segments with
  | error error => rfl
  | ok path => cases reading.error? <;> rfl

/-- The text of a path to descendants has one slash more than that of the same path to children. -/
theorem XPath.Path.render_reach_descendant {path : Path} (h : path ≠ []) :
    (path.reach .descendant).render = "/" ++ (path.reach .child).render := by
  cases path with
  | nil => exact absurd rfl h
  | cons step later =>
    have hslashes : Axis.descendant.text = "/" ++ Axis.child.text := by decide
    rw [reach, reach, render_cons, render_cons, Step.render, Step.render, hslashes]
    simp only [String.append_assoc]

/-! ## Errors of selectors -/

/-- A name and an argument without a predicate are named by the error; an argument without text is
left out. -/
theorem pseudoPredicate_eq_error {name expression : String} {error : CompileError}
    (h : pseudoPredicate name expression = .error error) :
    error = .unsupportedPseudoClass name (if expression = "" then none else some expression) := by
  rw [pseudoPredicate] at h
  split at h
  · cases h
  · exact (Except.error.inj h).symm

/-- A pseudo-class without a predicate is named by its error, with its argument. An argument without
text would be left out, but none is read. -/
theorem PseudoClass.predicate_eq_error {pseudo : PseudoClass}
    (hargument : pseudo.expression ≠ some "") {error : CompileError} (h : pseudo.predicate = .error error) :
    error = .unsupportedPseudoClass pseudo.name pseudo.expression := by
  have hexpression : (if pseudo.expression.getD "" = "" then none
      else some (pseudo.expression.getD "")) = pseudo.expression := by
    cases hsome : pseudo.expression with
    | none => rfl
    | some text =>
      rw [hsome] at hargument
      exact if_neg fun hempty ↦ hargument (congrArg some hempty)
  rw [pseudoPredicate_eq_error h, hexpression]

/-- The pseudo-classes that are read have no argument without text. -/
theorem Reading.expression_ne_of_mem {selector : String} {segment : Segment}
    (h : segment ∈ (ofSelector selector).segments) {pseudo : PseudoClass}
    (hpseudo : segment.pseudo = some pseudo) : pseudo.expression ≠ some "" := by
  obtain ⟨parts, hvalid, rfl⟩ := exists_parts_of_mem h
  intro hempty
  exact ((hvalid.wellFormed.pseudo pseudo hpseudo).expression "" hempty).1 rfl

section Outcomes

variable {reading : Reading} {axis : Axis}

/-- An error of the segments comes before the place where reading got stuck. -/
theorem Reading.path_of_segments_error {error : CompileError}
    (h : Segment.path axis reading.segments = .error error) :
    reading.path axis = .error error := by
  rw [Reading.path, h]
  rfl

/-- Segments without an error leave the one of the reading. -/
theorem Reading.path_of_segments_ok {path : Path}
    (h : Segment.path axis reading.segments = .ok path) {error : CompileError}
    (herror : reading.error? = some error) : reading.path axis = .error error := by
  rw [Reading.path, h]
  simp only [bind, Except.bind, herror]
  rfl

end Outcomes

theorem compileSelector_of_path_error {selector : String} {axis : Axis} {error : CompileError}
    (h : (Reading.ofSelector selector).path axis = .error error) :
    compileSelector selector axis = .error error := by
  rw [compileSelector, h]
  rfl

/-- A selector compiles when it is read to its end and every pseudo-class has a predicate. -/
theorem exists_compileSelector_iff {selector : String} {axis : Axis} :
    (∃ text, compileSelector selector axis = .ok text) ↔
      ∃ segments, Segment.readAll selector = .ok segments ∧
        ∀ segment ∈ segments, segment.Translates := by
  simp only [compileSelector_eq_ok_iff, Segment.readAll, Reading.chain_eq_ok_iff]
  constructor
  · rintro ⟨_, hstuck, steps, hsteps, _⟩
    exact ⟨_, ⟨hstuck, rfl⟩, (Segment.exists_path_iff axis).mp ⟨steps, hsteps⟩⟩
  · rintro ⟨_, ⟨hstuck, rfl⟩, htranslates⟩
    obtain ⟨steps, hsteps⟩ := (Segment.exists_path_iff axis).mpr htranslates
    exact ⟨_, hstuck, steps, hsteps, rfl⟩

/-- The axis of the first step has no part in an error. -/
theorem compileSelector_error_congr {selector : String} {axis : Axis} {error : CompileError}
    (h : compileSelector selector axis = .error error) (other : Axis) :
    compileSelector selector other = .error error := by
  rw [compileSelector] at h ⊢
  rw [Reading.path_eq_map_reach other axis]
  cases hpath : (Reading.ofSelector selector).path axis with
  | error found =>
    rw [hpath] at h
    cases h
    rfl
  | ok path =>
    rw [hpath] at h
    cases h

/-- The axis of the first step is a matter of one slash. -/
theorem compileSelector_descendant (selector : String) :
    compileSelector selector .descendant =
      (compileSelector selector .child).map ("/" ++ ·) := by
  rw [compileSelector, compileSelector, Reading.path_eq_map_reach .descendant .child]
  cases hpath : (Reading.ofSelector selector).path .child with
  | error error => rfl
  | ok path =>
    obtain ⟨hstuck, hsegments⟩ := Reading.path_eq_ok_iff.mp hpath
    have hne : path ≠ [] := by
      rintro rfl
      obtain ⟨segment, rest, hcons⟩ := List.exists_cons_of_ne_nil (Reading.segments_ne_nil hstuck)
      change (Reading.ofSelector selector).segments = _ at hcons
      rw [hcons, Segment.path_cons_eq_ok_iff] at hsegments
      obtain ⟨_, _, _, _, hnil⟩ := hsegments
      cases hnil
    have hchild : path.reach .child = path := by
      have hsame := Reading.path_eq_map_reach .child .child (Reading.ofSelector selector)
      rw [hpath] at hsame
      exact (Except.ok.inj hsame).symm
    apply congrArg Except.ok
    rw [Path.render_reach_descendant hne, hchild]

/-- Compiling a selector while a cursor gives its segments is the same as compiling what was read.
The first segment whose pseudo-class has no predicate gives the error, and names that pseudo-class,
also when reading gets stuck further right. Without such a segment the error is that of the reading;
without that one too, the text is made of the steps, each reached as the segment before it says. So
a selector compiles when it is read to its end and every pseudo-class has a predicate. The axis has
no part in an error, and in the text it is one slash. -/
theorem compileSelector_priority (selector : String) (axis : Axis) :
    (∀ count, (Cursor.ofSelector selector).pulls count =
      (List.range count).map fun i ↦ (Reading.ofSelector selector).items[i]?) ∧
    (Cursor.ofSelector selector).compile axis "" = compileSelector selector axis ∧
    (∀ before segment after pseudo rejection,
      (Reading.ofSelector selector).segments = before ++ segment :: after →
      (∀ earlier ∈ before, earlier.Translates) →
      segment.pseudo = some pseudo → pseudo.predicate = .error rejection →
        compileSelector selector axis =
          .error (.unsupportedPseudoClass pseudo.name pseudo.expression)) ∧
    ((∀ segment ∈ (Reading.ofSelector selector).segments, segment.Translates) →
      (∀ error, (Reading.ofSelector selector).error? = some error →
        compileSelector selector axis = .error error) ∧
      ((Reading.ofSelector selector).error? = none →
        ∃ steps : Path, List.zipWith (fun axis segment ↦ segment.step axis)
            (axis :: (Reading.ofSelector selector).segments.map Segment.nextAxis)
            (Reading.ofSelector selector).segments = steps.map .ok ∧
          compileSelector selector axis = .ok (String.join (steps.map Step.render)))) ∧
    ((∃ text, compileSelector selector axis = .ok text) ↔
      ∃ segments, Segment.readAll selector = .ok segments ∧
        ∀ segment ∈ segments, segment.Translates) ∧
    (∀ other error, compileSelector selector axis = .error error →
      compileSelector selector other = .error error) ∧
    compileSelector selector .descendant =
      (compileSelector selector .child).map ("/" ++ ·) := by
  refine ⟨Cursor.pulls_ofSelector selector, Cursor.compile_ofSelector selector axis, ?_, ?_,
    exists_compileSelector_iff, ?_, compileSelector_descendant selector⟩
  · intro before segment after pseudo rejection hsegments hbefore hpseudo hrejected
    have hmem : segment ∈ (Reading.ofSelector selector).segments := by simp [hsegments]
    have hargument := Reading.expression_ne_of_mem hmem hpseudo
    have herror := PseudoClass.predicate_eq_error hargument hrejected
    rw [herror] at hrejected
    apply compileSelector_of_path_error
    apply Reading.path_of_segments_error
    rw [hsegments]
    exact Segment.path_of_rejected hbefore (Segment.step_of_rejected hpseudo hrejected)
  · intro htranslates
    obtain ⟨steps, hsteps⟩ := (Segment.exists_path_iff axis).mpr htranslates
    constructor
    · intro error herror
      exact compileSelector_of_path_error (Reading.path_of_segments_ok hsteps herror)
    · intro hnone
      have hstuck : (Reading.ofSelector selector).stuck = none := Option.map_eq_none_iff.mp hnone
      exact ⟨steps, Segment.zipWith_step_of_path hsteps,
        compileSelector_eq_ok_iff.mpr ⟨hstuck, steps, hsteps, rfl⟩⟩
  · intro other error herror
    exact compileSelector_error_congr herror other

/-- A pseudo-class without a predicate between a segment with a step and a place where reading gets
stuck, and such a place alone. -/
theorem compileSelector_priority_of_tilde :
    (Reading.ofSelector "a:first-child > p:b(c) ~").segments =
        [⟨"a:first-child >", "a", none, [], .empty, some ⟨"first-child", none⟩, true⟩] ++
          ⟨"p:b(c) ", "p", none, [], .empty, some ⟨"b", some "c"⟩, false⟩ :: [] ∧
      (Reading.ofSelector "a:first-child > p:b(c) ~").error? = some (.invalidSelector "~") ∧
      compileSelector "a:first-child > p:b(c) ~" .child =
        .error (.unsupportedPseudoClass "b" (some "c")) ∧
      compileSelector "a:first-child > ~" .child = .error (.invalidSelector "~") := by
  have hsegments : (Reading.ofSelector "a:first-child > p:b(c) ~").segments =
      [⟨"a:first-child >", "a", none, [], .empty, some ⟨"first-child", none⟩, true⟩] ++
        ⟨"p:b(c) ", "p", none, [], .empty, some ⟨"b", some "c"⟩, false⟩ :: [] := by
    decide +kernel
  have hfirst : Segment.Translates
      ⟨"a:first-child >", "a", none, [], .empty, some ⟨"first-child", none⟩, true⟩ := by
    rintro pseudo ⟨⟩
    exact ⟨.numeral "1", by decide +kernel⟩
  have hstuck : (Reading.ofSelector "a:first-child > ~").segments =
      [⟨"a:first-child >", "a", none, [], .empty, some ⟨"first-child", none⟩, true⟩] := by
    decide +kernel
  refine ⟨hsegments, by decide +kernel, ?_, ?_⟩
  · exact (compileSelector_priority "a:first-child > p:b(c) ~" .child).2.2.1 _ _ _ ⟨"b", some "c"⟩
      (.unsupportedPseudoClass "b" (some "c")) hsegments (List.forall_mem_singleton.mpr hfirst) rfl
      (by decide +kernel)
  · apply ((compileSelector_priority "a:first-child > ~" .child).2.2.2.1 ?_).1
    · decide +kernel
    · rw [hstuck]
      exact List.forall_mem_singleton.mpr hfirst

end SelectorCompiler
