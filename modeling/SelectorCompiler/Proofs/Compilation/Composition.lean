import SelectorCompiler.Compilation.Path
import SelectorCompiler.Proofs.Selector.Locality

/-!
# Compilation over combinators

Two selectors with a combinator between them compile to the paths of both, one after the other. The
path of the second begins with the axis that the combinator stands for. How much white space stands
at the combinator, and which, does not matter.

A selector may end with `>` already; then white space alone joins it to a child. In front of a
selector that begins with `>` white space alone is no descendant combinator, since the `>` would end
the segment before it.
-/

namespace SelectorCompiler

open Text XPath

/-! ## Paths of joined chains -/

/-- The path of a chain is the step of its first segment and the path of the others. -/
theorem Segment.path_cons (axis : Axis) (segment : Segment) (rest : List Segment) :
    Segment.path axis (segment :: rest) =
      (segment.step axis).bind fun step ↦ (Segment.path segment.nextAxis rest).map (step :: ·) := by
  rw [Segment.path]
  cases segment.step axis with
  | error error => rfl
  | ok step => cases Segment.path segment.nextAxis rest <;> rfl

theorem Segment.path_cons_eq_ok_iff {axis : Axis} {segment : Segment} {rest : List Segment}
    {path : Path} :
    Segment.path axis (segment :: rest) = .ok path ↔
      ∃ step later, segment.step axis = .ok step ∧
        Segment.path segment.nextAxis rest = .ok later ∧ path = step :: later := by
  rw [Segment.path_cons]
  cases segment.step axis with
  | error error => simp [Except.bind]
  | ok step =>
    cases Segment.path segment.nextAxis rest with
    | error error => simp [Except.bind, Except.map]
    | ok later => simp [Except.bind, Except.map, eq_comm]

/-- The path of a chain that is continued is the path of the chain, continued. The last segment may
be another one there, with the same step but a different relation. -/
theorem Segment.path_append {axis : Axis} {front : List Segment} {last : Segment} {path : Path}
    (h : Segment.path axis (front ++ [last]) = .ok path) {other : Segment}
    (hstep : ∀ axis, other.step axis = last.step axis) (later : List Segment) :
    Segment.path axis (front ++ other :: later) =
      (Segment.path other.nextAxis later).map (path ++ ·) := by
  induction front generalizing axis path with
  | nil =>
    obtain ⟨step, rest, hlast, hrest, rfl⟩ := Segment.path_cons_eq_ok_iff.mp h
    cases hrest
    rw [List.nil_append, Segment.path_cons, hstep, hlast]
    rfl
  | cons segment front ih =>
    obtain ⟨step, rest, hsegment, hrest, rfl⟩ := Segment.path_cons_eq_ok_iff.mp h
    rw [List.cons_append, Segment.path_cons, hsegment, ih hrest]
    cases Segment.path other.nextAxis later <;> rfl

/-- A reading has a path when it reached the end and its segments have one. -/
theorem Reading.path_eq_ok_iff {reading : Reading} {axis : Axis} {path : Path} :
    reading.path axis = .ok path ↔
      reading.stuck = none ∧ Segment.path axis reading.segments = .ok path := by
  rw [Reading.path]
  cases Segment.path axis reading.segments with
  | error error => simp [bind, Except.bind]
  | ok found =>
    cases hstuck : reading.stuck with
    | none => simp [error?, hstuck, bind, Except.bind, pure, Except.pure]
    | some rest => simp [error?, hstuck, bind, Except.bind, throw, throwThe, MonadExceptOf.throw]

/-- The path of a reading that is continued. An error of what comes later is the error of the
whole. -/
theorem Reading.path_append {axis : Axis} {front : List Segment} {last : Segment} {path : Path}
    (h : Segment.path axis (front ++ [last]) = .ok path) {other : Segment}
    (hstep : ∀ axis, other.step axis = last.step axis) (later : Reading) :
    Reading.path ⟨front ++ other :: later.segments, later.stuck⟩ axis =
      (later.path other.nextAxis).map (path ++ ·) := by
  obtain ⟨segments, stuck⟩ := later
  rw [Reading.path, Segment.path_append h hstep, Reading.path]
  cases Segment.path other.nextAxis segments with
  | error error => rfl
  | ok rest => cases stuck <;> rfl

/-- A selector compiles when it is read to its end and its segments have a path. -/
theorem compileSelector_eq_ok_iff {selector path : String} {axis : Axis} :
    compileSelector selector axis = .ok path ↔
      (Reading.ofSelector selector).stuck = none ∧
        ∃ steps : Path, Segment.path axis (Reading.ofSelector selector).segments = .ok steps ∧
          steps.render = path := by
  have hpath : ∀ steps : Path, (Reading.ofSelector selector).path axis = .ok steps ↔ _ :=
    fun steps ↦ Reading.path_eq_ok_iff
  rw [compileSelector]
  cases hsteps : (Reading.ofSelector selector).path axis with
  | error error =>
    simp only [hsteps, reduceCtorEq, false_iff] at hpath
    simp only [Except.map, reduceCtorEq, false_iff]
    rintro ⟨hstuck, steps, hchain, _⟩
    exact hpath steps ⟨hstuck, hchain⟩
  | ok steps =>
    obtain ⟨hstuck, hchain⟩ := (hpath steps).mp hsteps
    simp [Except.map, hstuck, hchain]

theorem XPath.Path.render_append (first second : Path) :
    Path.render (first ++ second) = first.render ++ second.render := by
  simp [Path.render]

/-! ## Joined selectors -/

/-- A segment has the same step when its relation is continued. -/
theorem Parts.step_extend (parts : Parts) (gap : List Char) (axis : Axis) :
    (parts.extend gap).1.segment.step axis = parts.segment.step axis := by
  unfold extend
  split <;> rfl

theorem Parts.nextAxis_segment (parts : Parts) :
    parts.segment.nextAxis = if parts.child then .child else .descendant := rfl

/-- The reading of a selector that goes on, behind a gap, with another one. -/
private theorem Reading.exists_join {selector : String}
    (hstuck : (ofSelector selector).stuck = none) (hne : trim selector.toList ≠ []) :
    ∃ front last, (ofSelector selector).segments = front ++ [Parts.segment last] ∧
      ∀ {joint other : String} {gap : List Char}, trim other.toList ≠ [] →
        trim joint.toList = trim selector.toList ++ gap → BeginsGap gap →
        trimStart (last.extend gap).2 = trim other.toList →
        ofSelector joint =
          ⟨front ++ (last.extend gap).1.segment :: (ofSelector other).segments,
            (ofSelector other).stuck⟩ := by
  obtain ⟨front, last, hsegments, happend⟩ :=
    exists_append (cuts_of_stuck_eq_none hstuck) hne (endsInk_trim _)
  refine ⟨front, last, hsegments, ?_⟩
  intro joint other gap hother hjoint hgap hafter
  have hread := happend gap hgap (hafter ▸ hother)
  rw [hafter] at hread
  rw [ofSelector, hjoint, hread]
  rfl

private theorem compileSelector_of_join {joint other : String} {front : List Segment}
    {last : Parts} {gap : List Char} {axis : Axis} {steps : Path}
    (hsteps : Segment.path axis (front ++ [last.segment]) = .ok steps)
    (hjoint : Reading.ofSelector joint =
      ⟨front ++ (last.extend gap).1.segment :: (Reading.ofSelector other).segments,
        (Reading.ofSelector other).stuck⟩) :
    compileSelector joint axis =
      (compileSelector other (last.extend gap).1.segment.nextAxis).map (steps.render ++ ·) := by
  rw [compileSelector, hjoint, Reading.path_append hsteps (last.step_extend gap), compileSelector]
  cases (Reading.ofSelector other).path (last.extend gap).1.segment.nextAxis with
  | error error => rfl
  | ok later => exact congrArg Except.ok (Path.render_append steps later)

/-- A selector that compiles, joined to another one that is not blank, compiles to its own path and
the path of the other one, or fails as the other one does. Joined by white space, the other one is
reached as the last segment says, unless its own `>` would come to stand after that segment; joined
by `>` it is a child. The white space has no influence on the result. -/
theorem compileSelector_join {selector path : String} {axis : Axis}
    (hpath : compileSelector selector axis = .ok path) :
    ∃ front last, Segment.readAll selector = .ok (front ++ [last]) ∧
      ∀ other : String, trim other.toList ≠ [] →
        (∀ gap : String, Blank gap.toList → gap ≠ "" →
          (last.child = true ∨ (trim other.toList).head? ≠ some '>') →
            compileSelector (selector ++ gap ++ other) axis =
              (compileSelector other last.nextAxis).map (path ++ ·)) ∧
        (last.child = false → ∀ before after : String, Blank before.toList → Blank after.toList →
          compileSelector (selector ++ before ++ ">" ++ after ++ other) axis =
            (compileSelector other .child).map (path ++ ·)) := by
  obtain ⟨hstuck, steps, hsteps, rfl⟩ := compileSelector_eq_ok_iff.mp hpath
  have hne : trim selector.toList ≠ [] := by
    intro hnil
    rw [Reading.ofSelector, hnil, Reading.ofChars_nil] at hstuck
    cases hstuck
  obtain ⟨front, last, hsegments, hjoin⟩ := Reading.exists_join hstuck hne
  rw [hsegments] at hsteps
  refine ⟨front, last.segment, Reading.chain_eq_ok_iff.mpr ⟨hstuck, hsegments⟩, ?_⟩
  intro other hother
  obtain ⟨before, after, hbefore, hafter, htrim⟩ := exists_trim_append hne hother
  refine ⟨?_, ?_⟩
  · intro gap hgap hne hrelation
    have hblank : Blank (before ++ gap.toList ++ after) := (hbefore.append hgap).append hafter
    have hbegin := BeginsGap.blank_append hblank (by simp [hne]) (trim other.toList)
    obtain ⟨hgoes, hrelated⟩ := Parts.extend_blank hblank (beginsInk_trim other.toList) hrelation
    have hjoint : trim (selector ++ gap ++ other).toList =
        trim selector.toList ++ (before ++ gap.toList ++ after ++ trim other.toList) := by
      rw [String.toList_append, String.toList_append, htrim]
    rw [compileSelector_of_join hsteps (hjoin hother hjoint hbegin hgoes), Parts.nextAxis_segment,
      hrelated]
    rfl
  · intro hchild first second hfirst hsecond
    have hbegin := BeginsGap.child (hbefore.append hfirst)
      (second.toList ++ after ++ trim other.toList)
    obtain ⟨hgoes, hrelated⟩ := Parts.extend_child hchild (hbefore.append hfirst)
      (hsecond.append hafter) (beginsInk_trim other.toList)
    have hjoint : trim (selector ++ first ++ ">" ++ second ++ other).toList =
        trim selector.toList ++
          (before ++ first.toList ++ '>' :: (second.toList ++ after ++ trim other.toList)) := by
      have hmiddle := htrim (first.toList ++ '>' :: second.toList)
      simpa using hmiddle
    rw [compileSelector_of_join hsteps (hjoin hother hjoint hbegin hgoes), Parts.nextAxis_segment,
      hrelated]
    rfl

/-- White space of two kinds in front of an attribute, and an error behind `>`. -/
theorem compileSelector_join_of_menu :
    compileSelector "ul[dir]" .child = .ok "/ul[@dir]" ∧
      Blank "\t ".toList ∧ trim " [x]".toList ≠ [] ∧ trim "a:b ~".toList ≠ [] ∧
      compileSelector ("ul[dir]" ++ "\t " ++ " [x]") .child =
        (compileSelector " [x]" .descendant).map ("/ul[@dir]" ++ ·) ∧
      compileSelector ("ul[dir]" ++ "" ++ ">" ++ "\t " ++ "a:b ~") .child =
        (compileSelector "a:b ~" .child).map ("/ul[@dir]" ++ ·) := by
  have hpath : compileSelector "ul[dir]" .child = .ok "/ul[@dir]" := by decide +kernel
  have hblank : Blank "\t ".toList := by decide
  obtain ⟨front, last, hread, hjoin⟩ := compileSelector_join hpath
  have hlast : last = ⟨"ul[dir]", "ul", none, [], .ofList [("dir", none)], none, false⟩ := by
    have hsame : Segment.readAll "ul[dir]" =
        .ok ([] ++ [⟨"ul[dir]", "ul", none, [], .ofList [("dir", none)], none, false⟩]) := by
      decide +kernel
    rw [hread] at hsame
    exact List.singleton_inj.mp (List.append_inj' (Except.ok.inj hsame) rfl).2
  subst hlast
  have hattribute : trim " [x]".toList ≠ [] := by decide
  have hstuck : trim "a:b ~".toList ≠ [] := by decide
  refine ⟨hpath, hblank, hattribute, hstuck, ?_, ?_⟩
  · exact (hjoin " [x]" hattribute).1 "\t " hblank (by decide) (.inr (by decide))
  · exact (hjoin "a:b ~" hstuck).2 rfl "" "\t " (fun c hc ↦ absurd hc (by simp)) hblank

end SelectorCompiler
