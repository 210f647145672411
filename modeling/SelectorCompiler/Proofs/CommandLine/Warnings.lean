import SelectorCompiler.Proofs.CommandLine.Output
import SelectorCompiler.Proofs.Warning

/-!
# The warnings of a run

On standard error a run shows its warnings and then, if it fails, a report. It warns of a memo file
that holds something else, of selectors whose segments cannot be read, and of expressions that do
not compile. Each of the three is a component of its own, and a message may quote any text of the
user's. Still the run shows exactly its different warnings, each once, in the order in which they
are first given.

The warnings of a run are known from its options, its files and the memo that it loads, since no
compilation changes an outcome. `Progress.Warns` follows a run operation by operation.
-/

namespace SelectorCompiler.CommandLine

/-! ## The warnings that a run gives -/

/-- The warning that the segments of a selector cannot be read. -/
def readingWarning? (selector : String) : Option (String × String) :=
  match Segment.readAll selector with
  | .error error => some ("segments", error.message)
  | .ok _ => none

/-- The warning for the content of a memo file that is a JSON value other than a memo. -/
def contentWarnings (path : String) : Except Fault String → List (String × String)
  | .error _ => []
  | .ok text =>
    match Json.Value.parse? text with
    | none => []
    | some value =>
      match Memo.ofValue value with
      | .ok _ => []
      | .error rejection => [("cache", "ignoring " ++ path ++ ": " ++ rejection.message)]

namespace Options

/-- The warnings for the segments of an expression, if they are asked for. -/
def segmentWarnings (options : Options) (expression : String) : List (String × String) :=
  if options.segments ∧ options.language = .css then
    (selectorsOf expression).filterMap readingWarning?
  else []

/-- The warnings for expressions, up to the one that stops the run. -/
def warningsFor (options : Options) (query : Query) : List String → List (String × String)
  | [] => []
  | expression :: rest =>
    options.segmentWarnings expression ++
      match (query.compile expression options.language).1 with
      | .ok _ => options.warningsFor query rest
      | .error error =>
        if options.keepGoing then ("query", error.message) :: options.warningsFor query rest
        else []

/-- The warning for a memo file, if there is one. -/
def memoWarnings (options : Options) (files : Files) : List (String × String) :=
  match options.cache with
  | none => []
  | some path => contentWarnings path (files.readText path)

/-- All warnings of a run that loads the memo, in order and with those given again. -/
def warnings (options : Options) (files : Files) (memo : Memo) : List (String × String) :=
  options.memoWarnings files ++ options.warningsFor ⟨memo⟩ options.selectors

/-- The warnings depend on the memo through its outcomes only. -/
theorem warningsFor_congr (options : Options) {query other : Query}
    (h : query.memo.outcome = other.memo.outcome) (expressions : List String) :
    options.warningsFor query expressions = options.warningsFor other expressions := by
  induction expressions with
  | nil => rfl
  | cons expression rest ih => rw [warningsFor, warningsFor, Query.compile_fst_congr h, ih]

/-! ## The components of a run -/

/-- The components that a run warns for. -/
def components : List String := ["cache", "segments", "query"]

/-- No component of a run holds the bracket that ends it in a line. -/
theorem bracket_not_mem_of_mem_components :
    ∀ component ∈ components, ']' ∉ component.toList := by
  decide

theorem component_of_mem_segmentWarnings {options : Options} {expression : String}
    {warning : String × String} (h : warning ∈ options.segmentWarnings expression) :
    warning.1 ∈ components := by
  rw [segmentWarnings] at h
  split at h
  · rcases List.mem_filterMap.mp h with ⟨selector, -, hselector⟩
    rw [readingWarning?] at hselector
    split at hselector
    · cases hselector
      simp [components]
    · cases hselector
  · cases h

theorem component_of_mem_warningsFor {options : Options} {query : Query}
    {expressions : List String} {warning : String × String}
    (h : warning ∈ options.warningsFor query expressions) : warning.1 ∈ components := by
  induction expressions with
  | nil => cases h
  | cons expression rest ih =>
    rw [warningsFor, List.mem_append] at h
    rcases h with hsegments | hcompiled
    · exact component_of_mem_segmentWarnings hsegments
    · split at hcompiled
      · exact ih hcompiled
      · split at hcompiled
        · rcases List.mem_cons.mp hcompiled with rfl | hrest
          · simp [components]
          · exact ih hrest
        · cases hcompiled

theorem component_of_mem_memoWarnings {options : Options} {files : Files}
    {warning : String × String} (h : warning ∈ options.memoWarnings files) :
    warning.1 ∈ components := by
  rw [memoWarnings] at h
  split at h
  · cases h
  · rw [contentWarnings.eq_def] at h
    split at h
    · cases h
    · split at h
      · cases h
      · split at h
        · cases h
        · rw [List.mem_singleton.mp h]
          simp [components]

theorem bracket_not_mem_of_mem_warnings {options : Options} {files : Files} {memo : Memo}
    {warning : String × String} (h : warning ∈ options.warnings files memo) :
    ']' ∉ warning.1.toList := by
  apply bracket_not_mem_of_mem_components
  rcases List.mem_append.mp h with hmemo | hexpressions
  · exact component_of_mem_memoWarnings hmemo
  · exact component_of_mem_warningsFor hexpressions

end Options

/-! ## What a run shows of them -/

namespace Progress

/-- The later run has given these warnings more than the earlier one. -/
structure Warns (earlier later : Progress) (given : List (String × String)) : Prop where
  warnings : later.warnings = (earlier.warnings.run (WarningLog.warns given)).1
  err : later.err =
    earlier.err ++ String.join (earlier.warnings.run (WarningLog.warns given)).2

theorem warns_nothing (progress : Progress) : progress.Warns progress [] :=
  ⟨rfl, String.append_empty.symm⟩

theorem warns_warn (progress : Progress) (component message : String) :
    progress.Warns (progress.warn component message) [(component, message)] where
  warnings := rfl
  err := by
    change progress.err ++ (progress.warnings.warn component message).2 =
      progress.err ++ String.join [(progress.warnings.warn component message).2]
    rw [String.join_cons, String.join_nil, String.append_empty]

theorem Warns.trans {first second third : Progress} {given more : List (String × String)}
    (h : first.Warns second given) (hmore : second.Warns third more) :
    first.Warns third (given ++ more) := by
  have hsteps : WarningLog.warns (given ++ more) =
      WarningLog.warns given ++ WarningLog.warns more :=
    List.map_append
  constructor
  · rw [hmore.warnings, h.warnings, hsteps, WarningLog.run_append]
  · rw [hmore.err, h.err, h.warnings, hsteps, WarningLog.run_append, String.join_append,
      String.append_assoc]

theorem warns_showSegments (progress : Progress) (selector : String) :
    progress.Warns (progress.showSegments selector) (readingWarning? selector).toList := by
  unfold showSegments readingWarning?
  cases Segment.readAll selector with
  | error error => exact progress.warns_warn "segments" error.message
  | ok segments => exact ⟨rfl, String.append_empty.symm⟩

theorem warns_foldl_showSegments (progress : Progress) (selectors : List String) :
    progress.Warns (selectors.foldl showSegments progress)
      (selectors.filterMap readingWarning?) := by
  induction selectors generalizing progress with
  | nil => exact progress.warns_nothing
  | cons selector rest ih =>
    have hgiven : (selector :: rest).filterMap readingWarning? =
        (readingWarning? selector).toList ++ rest.filterMap readingWarning? := by
      rw [List.filterMap_cons]
      cases readingWarning? selector <;> rfl
    rw [List.foldl_cons, hgiven]
    exact (progress.warns_showSegments selector).trans (ih _)

theorem warns_attempt (progress : Progress) (options : Options) (expression : String) :
    progress.Warns (progress.attempt options expression).2
      (options.segmentWarnings expression) := by
  have hshown : progress.Warns
      (if options.segments ∧ options.language = .css then
        (selectorsOf expression).foldl showSegments progress else progress)
      (options.segmentWarnings expression) := by
    rw [Options.segmentWarnings]
    split
    · exact progress.warns_foldl_showSegments (selectorsOf expression)
    · exact progress.warns_nothing
  exact ⟨hshown.warnings, hshown.err⟩

/-- The warnings of expressions that are compiled one after another. -/
theorem warns_compileAll (progress : Progress) (options : Options) (expressions : List String) :
    progress.Warns (compileAll options progress expressions).1
      (options.warningsFor progress.query expressions) := by
  induction expressions generalizing progress with
  | nil => exact progress.warns_nothing
  | cons expression rest ih =>
    have hattempts := progress.attempts_attempt options expression
    have hwarns := progress.warns_attempt options expression
    rw [compileAll_cons]
    generalize progress.attempt options expression = attempted at hattempts hwarns ⊢
    obtain ⟨result, shown⟩ := attempted
    -- The memo may have grown, but what is left is warned of as before.
    have hrest : options.warningsFor shown.query rest =
        options.warningsFor progress.query rest := by
      apply options.warningsFor_congr
      rw [hattempts.query]
      exact progress.query.outcome_learn options.language [expression]
    rw [Options.warningsFor, ← hattempts.result, ← hrest]
    cases result with
    | ok path =>
      have hlater := ih (shown.print (resultLine options.json expression path))
      exact hwarns.trans ⟨hlater.warnings, hlater.err⟩
    | error error =>
      by_cases hgo : options.keepGoing = true
      · have hreject : shown.Warns (shown.reject error) [("query", error.message)] := by
          have hwarn := shown.warns_warn "query" error.message
          exact ⟨hwarn.warnings, hwarn.err⟩
        simp only [if_pos hgo]
        exact hwarns.trans (hreject.trans (ih (shown.reject error)))
      · simp only [if_neg hgo, List.append_nil]
        exact hwarns

end Progress

/-- What stands behind the warnings: nothing, or the report of a failure. -/
def IsClosing (text : String) : Prop :=
  text = "" ∨ ∃ failure : Failure, text = failure.report

theorem Progress.exists_err_close (progress : Progress) (options : Options) (files : Files) :
    ∃ closing, IsClosing closing ∧
      (progress.close options files).1.err = progress.err ++ closing := by
  have hconclude (total : Nat) : ∃ closing, IsClosing closing ∧
      (progress.conclude total).err = progress.err ++ closing := by
    rw [conclude]
    split
    · exact ⟨"", .inl rfl, String.append_empty.symm⟩
    · exact ⟨_, .inr ⟨_, rfl⟩, rfl⟩
  rw [close]
  split
  · exact hconclude _
  · split
    · exact hconclude _
    · exact ⟨_, .inr ⟨_, rfl⟩, rfl⟩

/-- A run that finds a memo in its file has warned if the file holds something else. -/
theorem Finds.exists_begin_warns {content : Except Fault String} {memo : Memo}
    (h : Finds content memo) (path : String) :
    ∃ begun, begin path content = .ok begun ∧ begun.query = ⟨memo⟩ ∧
      (Progress.start memo).Warns begun (contentWarnings path content) := by
  cases h with
  | absent => exact ⟨.start .empty, rfl, rfl, Progress.warns_nothing _⟩
  | memo hparse hmade =>
    have hvalue := Memo.ofValue_eq_ok_iff.mpr ⟨_, rfl, hmade⟩
    refine ⟨.start memo, ?_, rfl, ?_⟩
    · simp only [begin, hparse, hvalue]
    · simp only [contentWarnings, hparse, hvalue]
      exact Progress.warns_nothing _
  | other hparse hmapping =>
    rcases Memo.exists_rejection_iff.mpr hmapping with ⟨rejection, hvalue⟩
    refine ⟨(Progress.start .empty).warn "cache"
      ("ignoring " ++ path ++ ": " ++ rejection.message), ?_, rfl, ?_⟩
    · simp only [begin, hparse, hvalue]
    · simp only [contentWarnings, hparse, hvalue]
      exact Progress.warns_warn _ _ _

theorem Loads.exists_opening_warns {options : Options} {files : Files} {memo : Memo}
    (h : Loads options files.readText memo) :
    ∃ begun, opening options files.readText = .ok begun ∧ begun.query = ⟨memo⟩ ∧
      (Progress.start memo).Warns begun (options.memoWarnings files) := by
  cases h with
  | fresh hcache =>
    refine ⟨.start .empty, ?_, rfl, ?_⟩
    · rw [opening, hcache]
    · rw [Options.memoWarnings, hcache]
      exact Progress.warns_nothing _
  | @found path memo hcache hfinds =>
    rcases hfinds.exists_begin_warns path with ⟨begun, hbegin, hquery, hwarns⟩
    refine ⟨begun, ?_, hquery, ?_⟩
    · rw [opening, hcache]
      exact hbegin
    · rw [Options.memoWarnings, hcache]
      exact hwarns

private theorem join_filter_ne_empty (texts : List String) :
    String.join (texts.filter (· ≠ "")) = String.join texts := by
  induction texts with
  | nil => rfl
  | cons text rest ih =>
    by_cases h : text = ""
    · rw [List.filter_cons_of_neg (by simp [h]), String.join_cons, ih, h, String.empty_append]
    · rw [List.filter_cons_of_pos (by simp [h]), String.join_cons, String.join_cons, ih]

/-- A run that loads a memo shows its different warnings, and at most a report after them. -/
theorem Loads.exists_err_run {options : Options} {files : Files} {memo : Memo}
    (h : Loads options files.readText memo) :
    ∃ closing, IsClosing closing ∧
      (run options files).1.err =
        String.join ((options.warnings files memo).eraseDups.map
          fun warning ↦ shownLine (WarningLog.lineOf warning)) ++ closing := by
  rcases h.exists_opening_warns with ⟨begun, hopening, hquery, hbegun⟩
  have hcompiled := begun.warns_compileAll options options.selectors
  rw [hquery] at hcompiled
  have hwarns : (Progress.start memo).Warns (compileAll options begun options.selectors).1
      (options.warnings files memo) := hbegun.trans hcompiled
  have hplain : ∀ warning ∈ options.warnings files memo, ']' ∉ warning.1.toList := by
    intro warning hmem
    exact Options.bracket_not_mem_of_mem_warnings hmem
  have herr : (compileAll options begun options.selectors).1.err =
      String.join ((options.warnings files memo).eraseDups.map
        fun warning ↦ shownLine (WarningLog.lineOf warning)) :=
    calc (compileAll options begun options.selectors).1.err
      _ = String.join (WarningLog.empty.run (WarningLog.warns (options.warnings files memo))).2 :=
        hwarns.err.trans String.empty_append
      _ = String.join (((options.warnings files memo).map WarningLog.lineOf).eraseDups.map
          shownLine) := by
        rw [← join_filter_ne_empty, WarningLog.filter_run_warns]
      _ = _ := by
        rw [WarningLog.eraseDups_map_lineOf hplain, List.map_map]
        rfl
  rw [run_of_opening hopening, ← herr]
  rcases compileAll options begun options.selectors with ⟨progress, failure⟩
  cases failure with
  | some failure => exact ⟨failure.report, .inr ⟨failure, rfl⟩, rfl⟩
  | none => exact progress.exists_err_close options files

open WarningLog in
/-- A warning shows its line exactly when no warning since the last clearing had that line, and a
clearing shows nothing. So the warnings after a clearing show their different lines in the order in
which they first occur. Without the bracket in a component the same holds of the warnings
themselves, and a run shows exactly its different warnings. -/
theorem warnings_are_shown_once (commands : List Command) :
    (∀ front component message rest, commands = front ++ .warn component message :: rest →
      (Prints commands front.length (shownLine (formattedLine component message)) ↔
        ¬GivenLine front (formattedLine component message)) ∧
      (Prints commands front.length "" ↔ GivenLine front (formattedLine component message))) ∧
    (∀ front rest, commands = front ++ .clear :: rest → Prints commands front.length "") ∧
    (∀ front given rest, Cleared front → commands = front ++ warns given ++ rest →
      (((empty.run commands).2.drop front.length).take given.length).filter (· ≠ "") =
        (given.map lineOf).eraseDups.map shownLine) ∧
    ((∀ component message, .warn component message ∈ commands → ']' ∉ component.toList) →
      ∀ front component message rest, commands = front ++ .warn component message :: rest →
        (Prints commands front.length (shownLine (formattedLine component message)) ↔
          ¬Given front component message) ∧
        (Prints commands front.length "" ↔ Given front component message)) ∧
    ∀ options files memo, Loads options files.readText memo → ∃ closing, IsClosing closing ∧
      (run options files).1.err =
        String.join ((options.warnings files memo).eraseDups.map
          fun warning ↦ shownLine (lineOf warning)) ++ closing := by
  refine ⟨?_, ?_, ?_, ?_, ?_⟩
  · rintro front component message rest rfl
    exact prints_warn_iff front rest component message
  · rintro front rest rfl
    exact prints_clear front rest
  · rintro front given rest hcleared rfl
    exact filter_run_of_cleared hcleared given rest
  · rintro hplain front component message rest rfl
    have hgiven : GivenLine front (formattedLine component message) ↔
        Given front component message := by
      apply givenLine_iff_given
      · intro earlier text hmem
        exact hplain earlier text (List.mem_append_left _ hmem)
      · exact hplain component message (List.mem_append_right _ List.mem_cons_self)
    rw [← hgiven]
    exact prints_warn_iff front rest component message
  · intro options files memo hloads
    exact hloads.exists_err_run

open WarningLog in
/-- Two components with the same message, each shown once until a clearing; and a run that gives
such a pair twice. -/
theorem warnings_are_shown_once_of_same_message :
    let message := "Invalid selector: '.] ⚠'"
    let given := [("query", message), ("cache", message), ("query", message)]
    let commands := warns given ++ [.clear, .warn "query" message]
    let options : Options := ⟨["div.] ⚠", "div.] ⚠"], .css, none, true, true, false⟩
    let query := "\x1b[33m[csspath query] ⚠ Invalid selector: '.] ⚠'\x1b[39m\n"
    let cache := "\x1b[33m[csspath cache] ⚠ Invalid selector: '.] ⚠'\x1b[39m\n"
    let segments := "\x1b[33m[csspath segments] ⚠ Invalid selector: '.] ⚠'\x1b[39m\n"
    Prints commands 1 cache ∧ Prints commands 2 "" ∧ Prints commands 3 "" ∧
      Prints commands 4 query ∧
      ((empty.run commands).2.take 3).filter (· ≠ "") = [query, cache] ∧
      Loads options Files.empty.readText .empty ∧ ∃ closing, IsClosing closing ∧
        (run options .empty).1.err = segments ++ query ++ closing := by
  intro message given commands options query cache segments
  have hquery : shownLine (formattedLine "query" message) = query := by decide +kernel
  have hcache : shownLine (formattedLine "cache" message) = cache := by decide +kernel
  have hsegments : shownLine (formattedLine "segments" message) = segments := by decide +kernel
  have hplain : ∀ component text, .warn component text ∈ commands → ']' ∉ component.toList := by
    intro component text hmem
    apply Options.bracket_not_mem_of_mem_components
    simp only [commands, given, warns, List.map_cons, List.map_nil, List.cons_append,
      List.nil_append, List.mem_cons] at hmem
    grind [Options.components]
  obtain ⟨-, hclear, hbetween, hpairs, hruns⟩ := warnings_are_shown_once commands
  have hother : Prints commands 1 cache := by
    rw [← hcache]
    apply (hpairs hplain (warns (given.take 1)) "cache" message _ rfl).1.mpr
    rw [given_warns_iff]
    simp [given]
  have hagain : Prints commands 2 "" := by
    apply (hpairs hplain (warns (given.take 2)) "query" message _ rfl).2.mpr
    rw [given_warns_iff]
    simp [given]
  have hcleared : Prints commands 4 query := by
    rw [← hquery]
    apply (hpairs hplain (warns given ++ [Command.clear]) "query" message [] rfl).1.mpr
    simp [given_concat_iff]
  have hshown : ((empty.run commands).2.take 3).filter (· ≠ "") = [query, cache] := by
    rw [← hquery, ← hcache]
    exact hbetween [] given _ (.inl rfl) rfl
  have hloads : Loads options Files.empty.readText .empty := .fresh rfl
  have hwarnings : options.warnings .empty .empty =
      [("segments", message), ("query", message), ("segments", message), ("query", message)] := by
    decide +kernel
  have hdistinct : (options.warnings .empty .empty).eraseDups =
      [("segments", message), ("query", message)] := by
    rw [hwarnings]
    decide +kernel
  obtain ⟨closing, hclosing, herr⟩ := hruns options .empty .empty hloads
  have htexts : String.join ([("segments", message), ("query", message)].map
      fun warning ↦ shownLine (lineOf warning)) = segments ++ query := by
    rw [← hquery, ← hsegments]
    rfl
  rw [hdistinct, htexts] at herr
  exact ⟨hother, hagain, hclear (warns given) _ rfl, hcleared, hshown, hloads, closing, hclosing,
    herr⟩

end SelectorCompiler.CommandLine
