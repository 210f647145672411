import SelectorCompiler.CommandLine.Run
import SelectorCompiler.Proofs.Files
import SelectorCompiler.Proofs.Memo

/-!
# The memo file is transparent

Runs that share a memo file show the same as runs without one. A run loads the memo of the file,
adds to it what it compiles, and writes it back unless something stops it. Whatever the memo knows,
a faithful memo answers what compilation answers, so two runs that differ only in their memos go on
side by side, in `compileAll_alike`. The file itself keeps the invariant `HoldsMemo` from run to
run; the main statement is `runAll_transparent`.
-/

namespace SelectorCompiler.CommandLine

/-! ## One expression -/

namespace Progress

/-- Show the segments of an expression, if that is asked for, and compile it. -/
def attempt (progress : Progress) (options : Options) (expression : String) :
    Except CompileError String × Progress :=
  let shown :=
    if options.segments ∧ options.language = .css then
      (selectorsOf expression).foldl showSegments progress
    else progress
  let compiled := shown.query.compile expression options.language
  (compiled.1, { shown with query := compiled.2 })

/-- Warn of an expression that does not compile, and count it. -/
def reject (progress : Progress) (error : CompileError) : Progress :=
  let warned := progress.warn "query" error.message
  { warned with failures := warned.failures + 1 }

end Progress

/-- A run compiles its first expression and then the others, unless that was the end. -/
theorem compileAll_cons (options : Options) (progress : Progress) (expression : String)
    (rest : List String) :
    compileAll options progress (expression :: rest) =
      match progress.attempt options expression with
      | (.ok path, progress) =>
        compileAll options (progress.print (resultLine options.json expression path)) rest
      | (.error error, progress) =>
        if options.keepGoing then compileAll options (progress.reject error) rest
        else (progress, some (.notCompiled expression error)) := by
  simp only [compileAll, Progress.attempt]
  generalize (if options.segments ∧ options.language = .css then
    (selectorsOf expression).foldl Progress.showSegments progress else progress) = shown
  generalize shown.query.compile expression options.language = compiled
  obtain ⟨result, query⟩ := compiled
  cases result <;> rfl

/-! ## Runs side by side -/

/-- Two runs have shown the same so far, and both memos are faithful. -/
structure Progress.Alike (first second : Progress) : Prop where
  warnings : first.warnings = second.warnings
  out : first.out = second.out
  err : first.err = second.err
  failures : first.failures = second.failures
  left : first.query.memo.Faithful
  right : second.query.memo.Faithful

namespace Progress.Alike

variable {first second : Progress}

theorem start {memo other : Memo} (hmemo : memo.Faithful) (hother : other.Faithful) :
    (Progress.start memo).Alike (Progress.start other) :=
  ⟨rfl, rfl, rfl, rfl, hmemo, hother⟩

theorem print (h : first.Alike second) (text : String) :
    (first.print text).Alike (second.print text) :=
  { h with out := by rw [Progress.print, Progress.print, h.out] }

theorem warn (h : first.Alike second) (component message : String) :
    (first.warn component message).Alike (second.warn component message) :=
  { h with
    warnings := by rw [Progress.warn, Progress.warn, h.warnings]
    err := by rw [Progress.warn, Progress.warn, h.warnings, h.err] }

theorem reject (h : first.Alike second) (error : CompileError) :
    (first.reject error).Alike (second.reject error) :=
  { h.warn "query" error.message with
    failures := congrArg (· + 1) (h.warn "query" error.message).failures }

theorem showSegments (h : first.Alike second) (selector : String) :
    (first.showSegments selector).Alike (second.showSegments selector) := by
  unfold Progress.showSegments
  cases Segment.readAll selector with
  | error error => exact h.warn "segments" error.message
  | ok segments => exact h.print _

theorem foldl_showSegments (h : first.Alike second) (selectors : List String) :
    (selectors.foldl Progress.showSegments first).Alike
      (selectors.foldl Progress.showSegments second) := by
  induction selectors generalizing first second with
  | nil => exact h
  | cons selector rest ih => exact ih (h.showSegments selector)

/-- An expression has the same result in both runs, whether or not one has a memo file. -/
theorem attempt (h : first.Alike second) (options : Options) (expression : String) :
    (first.attempt options expression).1 =
        (second.attempt { options with cache := none } expression).1 ∧
      (first.attempt options expression).2.Alike
        (second.attempt { options with cache := none } expression).2 := by
  have hshown : Alike
      (if options.segments ∧ options.language = .css then
        (selectorsOf expression).foldl Progress.showSegments first else first)
      (if options.segments ∧ options.language = .css then
        (selectorsOf expression).foldl Progress.showSegments second else second) := by
    split
    · exact h.foldl_showSegments (selectorsOf expression)
    · exact h
  refine ⟨?_, ?_⟩
  · exact (Query.compile_fst_of_faithful hshown.left expression options.language).trans
      (Query.compile_fst_of_faithful hshown.right expression options.language).symm
  · exact { hshown with
      left := Query.faithful_compile hshown.left expression options.language
      right := Query.faithful_compile hshown.right expression options.language }

theorem conclude_eq (h : first.Alike second) (total : Nat) :
    first.conclude total = second.conclude total := by
  simp only [Progress.conclude, h.failures, h.out, h.err]

theorem stop_eq (h : first.Alike second) (failure : Failure) :
    first.stop failure = second.stop failure := by
  simp only [Progress.stop, h.out, h.err]

end Progress.Alike

/-- Runs with the same options that are alike stay alike, whether or not one has a memo file. -/
theorem compileAll_alike (options : Options) {first second : Progress} (h : first.Alike second)
    (expressions : List String) :
    (compileAll options first expressions).2 =
        (compileAll { options with cache := none } second expressions).2 ∧
      (compileAll options first expressions).1.Alike
        (compileAll { options with cache := none } second expressions).1 := by
  induction expressions generalizing first second with
  | nil => exact ⟨rfl, h⟩
  | cons expression rest ih =>
    rw [compileAll_cons, compileAll_cons]
    obtain ⟨hresult, halike⟩ := h.attempt options expression
    generalize first.attempt options expression = attempted at hresult halike ⊢
    generalize second.attempt { options with cache := none } expression = other at hresult halike ⊢
    obtain ⟨result, first⟩ := attempted
    obtain ⟨_, second⟩ := other
    cases hresult
    cases result with
    | ok path => exact ih (halike.print _)
    | error error =>
      by_cases hgo : options.keepGoing = true
      · simp only [if_pos hgo]
        exact ih (halike.reject error)
      · simp only [if_neg hgo]
        exact ⟨trivial, halike⟩

/-! ## One run -/

/-- A run without a memo file begins with an empty memo and writes nothing. -/
theorem run_of_cache_eq_none {options : Options} (hcache : options.cache = none) (files : Files) :
    run options files =
      match compileAll options (.start .empty) options.selectors with
      | (progress, some failure) => (progress.stop failure, files)
      | (progress, none) => (progress.conclude options.selectors.length, files) := by
  simp only [run, execute, hcache, Progress.finish]
  generalize compileAll options (.start .empty) options.selectors = compiled
  obtain ⟨progress, failure⟩ := compiled
  cases failure <;> rfl

/-- A run with a memo file that can be read writes its memo back, unless an expression stopped
it. -/
theorem run_of_cache_eq_some {options : Options} {path : String}
    (hcache : options.cache = some path) {files : Files} {begun : Progress}
    (hbegin : begin path (files.readText path) = .ok begun) :
    run options files =
      match compileAll options begun options.selectors with
      | (progress, some failure) => (progress.stop failure, files)
      | (progress, none) =>
        match files.writeText path progress.query.memo.toValue.pretty with
        | .ok later => (progress.conclude options.selectors.length, later)
        | .error fault => (progress.stop (.unwritable path fault), files) := by
  simp only [run, execute, hcache, hbegin, Progress.finish]
  generalize compileAll options begun options.selectors = compiled
  obtain ⟨progress, failure⟩ := compiled
  cases failure with
  | some failure => rfl
  | none => cases files.writeText path progress.query.memo.toValue.pretty <;> rfl

/-- The memo file does not exist, or it holds the text of a faithful memo. -/
def HoldsMemo (files : Files) (path : String) : Prop :=
  files.readText path = .error .missing ∨
    ∃ memo : Memo, memo.Faithful ∧ files.readText path = .ok memo.toValue.pretty

namespace HoldsMemo

variable {files : Files} {path : String}

/-- A run begins with a faithful memo. -/
theorem exists_begin (h : HoldsMemo files path) :
    ∃ memo : Memo, memo.Faithful ∧ begin path (files.readText path) = .ok (.start memo) := by
  rcases h with hmissing | ⟨memo, hmemo, htext⟩
  · refine ⟨.empty, Memo.faithful_empty, ?_⟩
    rw [hmissing]
    rfl
  · have hparse : Json.Value.parse? memo.toValue.pretty = some memo.toValue :=
      memo.parse?_write_toValue Json.Layout.spaced_indented
    refine ⟨memo.sorted, fun entry hentry ↦ hmemo entry (OrderedMap.mem_entries_sorted.mp hentry), ?_⟩
    rw [htext, begin]
    simp only [hparse, memo.ofValue_toValue]

/-- What the file holds is a JSON object of selectors with their paths. -/
theorem exists_members (h : HoldsMemo files path) {text : String}
    (htext : files.readText path = .ok text) :
    ∃ members, Json.Value.parse? text = some (.object members) ∧
      ∀ member ∈ members, ∃ compiled, member.2 = .string compiled ∧
        compileSelector member.1 .descendant = .ok compiled := by
  rcases h with hmissing | ⟨memo, hmemo, hpretty⟩
  · rw [hmissing] at htext
    cases htext
  · rw [hpretty] at htext
    cases htext
    refine ⟨_, memo.parse?_write_toValue Json.Layout.spaced_indented, ?_⟩
    intro member hmember
    obtain ⟨entry, hentry, rfl⟩ := List.mem_map.mp hmember
    exact ⟨entry.2, rfl, (hmemo entry hentry).compiled⟩

/-- A run shows what it shows without the memo file, and leaves a file that the next run can use. -/
theorem run (h : HoldsMemo files path) (husable : files.Usable path) {options : Options}
    (hcache : options.cache = some path) :
    (∀ elsewhere, (CommandLine.run options files).1 =
        (CommandLine.run { options with cache := none } elsewhere).1) ∧
      HoldsMemo (CommandLine.run options files).2 path ∧
      (CommandLine.run options files).2.Usable path := by
  obtain ⟨memo, hmemo, hbegin⟩ := h.exists_begin
  obtain ⟨hfailure, halike⟩ := compileAll_alike options
    (Progress.Alike.start hmemo Memo.faithful_empty) options.selectors
  simp only [run_of_cache_eq_some hcache hbegin, run_of_cache_eq_none]
  generalize compileAll options (.start memo) options.selectors = compiled at hfailure halike ⊢
  generalize compileAll { options with cache := none } (.start .empty) options.selectors = other
    at hfailure halike ⊢
  obtain ⟨progress, failure⟩ := compiled
  obtain ⟨otherProgress, otherFailure⟩ := other
  cases hfailure
  cases failure with
  | some failure => exact ⟨fun _ ↦ halike.stop_eq failure, h, husable⟩
  | none =>
    obtain ⟨later, hwrite, hread, hagain⟩ :=
      husable.exists_writeText progress.query.memo.toValue.pretty
    simp only [hwrite]
    exact ⟨fun _ ↦ halike.conclude_eq _, .inr ⟨_, halike.left, hread⟩, hagain⟩

end HoldsMemo

/-! ## Run after run -/

/-- Runs one after another, each with the files that the one before it left: their outcomes, and the
files at the end. -/
def runAll (files : Files) : List Options → List Outcome × Files
  | [] => ([], files)
  | options :: rest =>
    let first := run options files
    let later := runAll first.2 rest
    (first.1 :: later.1, later.2)

/-- Runs that share a memo file show what each shows without it, and leave a memo behind. -/
theorem HoldsMemo.runAll {files : Files} {path : String} (h : HoldsMemo files path)
    (husable : files.Usable path) {runs : List Options}
    (hcache : ∀ options ∈ runs, options.cache = some path) (elsewhere : Files) :
    (CommandLine.runAll files runs).1 =
        runs.map (fun options ↦ (CommandLine.run { options with cache := none } elsewhere).1) ∧
      HoldsMemo (CommandLine.runAll files runs).2 path := by
  induction runs generalizing files with
  | nil => exact ⟨rfl, h⟩
  | cons options rest ih =>
    obtain ⟨hfirst, hrest⟩ := List.forall_mem_cons.mp hcache
    obtain ⟨hsame, hmemo, hagain⟩ := h.run husable hfirst
    obtain ⟨hoptions, hlast⟩ := ih hmemo hagain hrest
    refine ⟨?_, hlast⟩
    rw [CommandLine.runAll, List.map_cons, ← hoptions, ← hsame elsewhere]

/-- Runs that name the same memo file, which does not exist before the first of them and may be
written and read, show what each of them shows without it: the same exit status, the same output,
the same errors. After every run the file, if it exists, is a JSON object of selectors with their
paths. -/
theorem runAll_transparent {files : Files} {path : String} {place : Location}
    (hfree : files.resolve path = .ok (.free place false))
    (hrefusal : ∀ access, files.refusal? access place = none) {runs : List Options}
    (hcache : ∀ options ∈ runs, options.cache = some path) :
    (∀ elsewhere, (runAll files runs).1 =
      runs.map fun options ↦ (run { options with cache := none } elsewhere).1) ∧
    ∀ count, (runAll files (runs.take count)).2.readText path = .error .missing ∨
      ∃ text members, (runAll files (runs.take count)).2.readText path = .ok text ∧
        Json.Value.parse? text = some (.object members) ∧
        ∀ member ∈ members, ∃ compiled, member.2 = .string compiled ∧
          compileSelector member.1 .descendant = .ok compiled := by
  obtain ⟨husable, hmissing⟩ := Files.usable_of_resolve_eq_free hfree hrefusal
  have hstart : HoldsMemo files path := .inl hmissing
  refine ⟨fun elsewhere ↦ (hstart.runAll husable hcache elsewhere).1, ?_⟩
  intro count
  have htake : ∀ options ∈ runs.take count, options.cache = some path :=
    fun options hmem ↦ hcache options (List.mem_of_mem_take hmem)
  have hholds : HoldsMemo (runAll files (runs.take count)).2 path :=
    (hstart.runAll husable htake files).2
  by_cases hnone : (runAll files (runs.take count)).2.readText path = .error .missing
  · exact .inl hnone
  · obtain ⟨memo, -, htext⟩ := hholds.resolve_left hnone
    obtain ⟨members, hparse, hmembers⟩ := hholds.exists_members htext
    exact .inr ⟨_, members, htext, hparse, hmembers⟩

/-- A run that goes on after a failure and leaves a memo, and one that shows segments and finds a
path in that memo. -/
theorem runAll_transparent_of_two_runs :
    let first : Options := ⟨["a, b:x", "p"], .css, some "memo.json", true, false, true⟩
    let second : Options := ⟨["p > a", "a"], .css, some "memo.json", false, true, false⟩
    let place : Location := ⟨["work", "memo.json"]⟩
    Files.empty.resolve "memo.json" = .ok (.free place false) ∧
      (∀ access, Files.empty.refusal? access place = none) ∧
      (runAll .empty [first]).2.readText "memo.json" =
        .ok "\x7b\n  \"a\": \"//a\",\n  \"p\": \"//p\"\n\x7d" ∧
      (runAll .empty [first, second]).1 =
        [(run { first with cache := none } .empty).1,
          (run { second with cache := none } .empty).1] := by
  intro first second place
  have hfree : Files.empty.resolve "memo.json" = .ok (.free place false) := by rfl
  have hrefusal (access : Access) : Files.empty.refusal? access place = none := rfl
  have hcache : ∀ options ∈ [first, second], options.cache = some "memo.json" := by decide
  refine ⟨hfree, hrefusal, ?_, (runAll_transparent hfree hrefusal hcache).1 .empty⟩
  decide +kernel

end SelectorCompiler.CommandLine
