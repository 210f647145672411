import SelectorCompiler.Proofs.CommandLine.Transparency
import SelectorCompiler.Proofs.Memo.Replacement
import SelectorCompiler.Proofs.Query.Growth

/-!
# What a run shows

Everything a run prints on standard output belongs to one of its expressions: the segments of its
selectors, if they are asked for, and the line with its path, if it has one. The memo grows from
expression to expression, but it changes no outcome, so each text is the one of the memo at the
beginning.

A run either works through all its expressions, and then `exists_completes` says where it has come
to, or it stops at the first one without a path, in `exists_stopped`.
-/

namespace SelectorCompiler.CommandLine

/-! ## The texts of an expression -/

/-- The record of the segments of a selector. A selector that cannot be read has none. -/
def segmentsRecord (selector : String) : String :=
  match Segment.readAll selector with
  | .error _ => ""
  | .ok segments =>
    let record : Json.Value :=
      .object [("chunk", .string selector), ("segments", Segment.chainValue segments)]
    record.pretty ++ "\n"

/-- The line for an expression and its path: a JSON record, or the expression dimmed, a bold arrow
and the path in green. -/
def pathLine (json : Bool) (expression path : String) : String :=
  if json then
    "\x7b\"selector\":" ++ Json.quoted expression ++ ",\"xpath\":" ++ Json.quoted path ++ "\x7d\n"
  else "\x1b[2m" ++ expression ++ "\x1b[0m \x1b[1m=>\x1b[0m \x1b[32m" ++ path ++ "\x1b[39m\n"

theorem resultLine_eq (json : Bool) (expression path : String) :
    resultLine json expression path = pathLine json expression path := by
  rw [resultLine, pathLine]
  cases json with
  | true =>
    rw [if_pos rfl, if_pos rfl, ← String.toList_inj]
    simp [Json.Value.compact, Json.Value.write, Json.Value.writeMembers, Json.Layout.compact,
      Json.quoted, Json.quote, Json.escape]
  | false =>
    rw [if_neg (by decide), if_neg (by decide), ← String.toList_inj]
    simp [Style.paint, Style.on, Style.off]

namespace Options

/-- The segments of an expression, if they are asked for. -/
def segmentsText (options : Options) (expression : String) : String :=
  if options.segments ∧ options.language = .css then
    String.join ((selectorsOf expression).map segmentsRecord)
  else ""

/-- What a query shows of an expression: the segments, and the line with the path. -/
def shownText (options : Options) (query : Query) (expression : String) : String :=
  options.segmentsText expression ++
    match (query.compile expression options.language).1 with
    | .ok path => pathLine options.json expression path
    | .error _ => ""

/-- The text depends on the memo through its outcomes only. -/
theorem shownText_congr (options : Options) {query other : Query}
    (h : query.memo.outcome = other.memo.outcome) :
    options.shownText query = options.shownText other := by
  funext expression
  rw [shownText, shownText, Query.compile_fst_congr h]

end Options

/-! ## One expression -/

namespace Progress

/-- The later run has printed a text more than the earlier one, and done nothing else but warn. -/
structure Shows (earlier later : Progress) (text : String) : Prop where
  query : later.query = earlier.query
  out : later.out = earlier.out ++ text
  failures : later.failures = earlier.failures

theorem shows_warn (progress : Progress) (component message : String) :
    progress.Shows (progress.warn component message) "" :=
  ⟨rfl, String.append_empty.symm, rfl⟩

theorem shows_showSegments (progress : Progress) (selector : String) :
    progress.Shows (progress.showSegments selector) (segmentsRecord selector) := by
  unfold showSegments segmentsRecord
  cases Segment.readAll selector with
  | error error => exact progress.shows_warn "segments" error.message
  | ok segments => exact ⟨rfl, rfl, rfl⟩

theorem Shows.trans {first second third : Progress} {text more : String}
    (h : first.Shows second text) (hmore : second.Shows third more) :
    first.Shows third (text ++ more) where
  query := hmore.query.trans h.query
  out := by rw [hmore.out, h.out, String.append_assoc]
  failures := hmore.failures.trans h.failures

theorem shows_foldl_showSegments (progress : Progress) (selectors : List String) :
    progress.Shows (selectors.foldl showSegments progress)
      (String.join (selectors.map segmentsRecord)) := by
  induction selectors generalizing progress with
  | nil => exact ⟨rfl, String.append_empty.symm, rfl⟩
  | cons selector rest ih =>
    rw [List.map_cons, String.join_cons]
    exact (progress.shows_showSegments selector).trans (ih _)

/-- An attempt shows the segments of the expression and compiles it. -/
structure Attempts (options : Options) (expression : String) (earlier : Progress)
    (result : Except CompileError String) (later : Progress) : Prop where
  result : result = (earlier.query.compile expression options.language).1
  query : later.query = (earlier.query.compile expression options.language).2
  out : later.out = earlier.out ++ options.segmentsText expression
  failures : later.failures = earlier.failures

theorem attempts_attempt (progress : Progress) (options : Options) (expression : String) :
    Attempts options expression progress (progress.attempt options expression).1
      (progress.attempt options expression).2 := by
  obtain ⟨shown, hshown, hattempt⟩ : ∃ shown,
      progress.Shows shown (options.segmentsText expression) ∧
        progress.attempt options expression =
          ((shown.query.compile expression options.language).1,
            { shown with query := (shown.query.compile expression options.language).2 }) := by
    refine ⟨_, ?_, rfl⟩
    rw [Options.segmentsText]
    split
    · exact progress.shows_foldl_showSegments (selectorsOf expression)
    · exact ⟨rfl, String.append_empty.symm, rfl⟩
  rw [hattempt, hshown.query]
  exact ⟨rfl, rfl, hshown.out, hshown.failures⟩

end Progress

/-! ## All expressions -/

/-- The later run has worked through the expressions: it has learned them, shown them and counted
those without a path. -/
structure Progress.Completes (options : Options) (expressions : List String)
    (earlier later : Progress) : Prop where
  query : later.query = earlier.query.learn options.language expressions
  out : later.out =
    earlier.out ++ String.join (expressions.map (options.shownText earlier.query))
  failures : later.failures =
    earlier.failures + expressions.countP (earlier.query.fails options.language)

namespace Progress.Completes

variable {options : Options} {expression : String} {first second third : Progress}

/-- An expression with a path is completed by its line. -/
theorem print {path : String} {shown : Progress}
    (h : Attempts options expression first (.ok path) shown) :
    Completes options [expression] first
      (shown.print (resultLine options.json expression path)) where
  query := h.query
  out := by
    change shown.out ++ _ = _
    rw [resultLine_eq]
    simp only [h.out, List.map_cons, List.map_nil, String.join_cons, String.join_nil,
      Options.shownText, ← h.result, String.append_empty, String.append_assoc]
  failures := by
    change shown.failures = _
    simp [h.failures, Query.fails, ← h.result]

/-- An expression without a path is completed by a warning. -/
theorem reject {error : CompileError} {shown : Progress}
    (h : Attempts options expression first (.error error) shown) :
    Completes options [expression] first (shown.reject error) where
  query := h.query
  out := by
    change shown.out = _
    simp only [h.out, List.map_cons, List.map_nil, String.join_cons, String.join_nil,
      Options.shownText, ← h.result, String.append_empty]
  failures := by
    change shown.failures + 1 = _
    simp [h.failures, Query.fails, ← h.result]

theorem outcome_eq {expressions : List String} (h : Completes options expressions first second) :
    second.query.memo.outcome = first.query.memo.outcome := by
  rw [h.query, Query.outcome_learn]

/-- One expression and then the others. -/
theorem cons (h : Completes options [expression] first second) {rest : List String}
    (hrest : Completes options rest second third) :
    Completes options (expression :: rest) first third where
  query := by
    rw [hrest.query, h.query]
    rfl
  out := by
    rw [hrest.out, h.out, options.shownText_congr h.outcome_eq]
    simp [String.append_assoc]
  failures := by
    have hcount : ([expression] ++ rest).countP (first.query.fails options.language) = _ :=
      List.countP_append
    rw [hrest.failures, h.failures, Query.fails_congr h.outcome_eq, Nat.add_assoc, ← hcount]
    rfl

end Progress.Completes

/-- A run that is to go on, or whose expressions all have a path, works through all of them. -/
theorem exists_completes {options : Options} {earlier : Progress} {expressions : List String}
    (h : options.keepGoing = true ∨
      ∀ expression ∈ expressions, earlier.query.fails options.language expression = false) :
    ∃ later, compileAll options earlier expressions = (later, none) ∧
      Progress.Completes options expressions earlier later := by
  induction expressions generalizing earlier with
  | nil => exact ⟨earlier, rfl, rfl, by simp, rfl⟩
  | cons expression rest ih =>
    have hattempts := earlier.attempts_attempt options expression
    rw [compileAll_cons]
    generalize earlier.attempt options expression = attempted at hattempts ⊢
    obtain ⟨result, shown⟩ := attempted
    -- What is left has the same outcomes after the first expression as before it.
    have hlater {next : Progress} (hnext : Progress.Completes options [expression] earlier next) :
        ∃ later, compileAll options next rest = (later, none) ∧
          Progress.Completes options (expression :: rest) earlier later := by
      have hrest : options.keepGoing = true ∨
          ∀ other ∈ rest, next.query.fails options.language other = false := by
        rw [Query.fails_congr hnext.outcome_eq]
        exact h.imp_right fun hall other hother ↦ hall other (List.mem_cons_of_mem _ hother)
      obtain ⟨later, hcompiled, hcompletes⟩ := ih hrest
      exact ⟨later, hcompiled, hnext.cons hcompletes⟩
    cases result with
    | ok path => exact hlater (.print hattempts)
    | error error =>
      have hgo : options.keepGoing = true := by
        refine h.resolve_right fun hall ↦ ?_
        have hfails : earlier.query.fails options.language expression = true :=
          Query.fails_iff.mpr ⟨error, hattempts.result.symm⟩
        rw [hall expression List.mem_cons_self] at hfails
        cases hfails
      simp only [if_pos hgo]
      exact hlater (.reject hattempts)

/-- What is left over is compiled after a front that was worked through. -/
theorem compileAll_append {options : Options} {earlier later : Progress} {front : List String}
    (h : compileAll options earlier front = (later, none)) (rest : List String) :
    compileAll options earlier (front ++ rest) = compileAll options later rest := by
  induction front generalizing earlier with
  | nil =>
    cases h
    rfl
  | cons expression front ih =>
    rw [List.cons_append, compileAll_cons]
    rw [compileAll_cons] at h
    generalize earlier.attempt options expression = attempted at h ⊢
    obtain ⟨result, shown⟩ := attempted
    cases result with
    | ok path => exact ih h
    | error error =>
      by_cases hgo : options.keepGoing = true
      · simp only [if_pos hgo] at h ⊢
        exact ih h
      · simp only [if_neg hgo] at h
        cases h

/-- A run that is not to go on stops at the first expression without a path. It has shown what
stands before it, and the segments of that expression. -/
theorem exists_stopped {options : Options} (hstop : options.keepGoing = false)
    {earlier : Progress} {before after : List String} {expression : String} {error : CompileError}
    (hbefore : ∀ other ∈ before, earlier.query.fails options.language other = false)
    (herror : (earlier.query.compile expression options.language).1 = .error error) :
    ∃ later, compileAll options earlier (before ++ expression :: after) =
        (later, some (.notCompiled expression error)) ∧
      later.out = earlier.out ++ String.join (before.map (options.shownText earlier.query)) ++
        options.segmentsText expression := by
  obtain ⟨middle, hmiddle, hcompletes⟩ := exists_completes (.inr hbefore)
  have hattempts := middle.attempts_attempt options expression
  rw [compileAll_append hmiddle, compileAll_cons]
  generalize middle.attempt options expression = attempted at hattempts ⊢
  obtain ⟨result, shown⟩ := attempted
  have hresult : result = .error error :=
    hattempts.result.trans ((Query.compile_fst_congr hcompletes.outcome_eq _ _).trans herror)
  subst hresult
  refine ⟨shown, by simp [hstop], ?_⟩
  rw [hattempts.out, hcompletes.out]

/-! ## How a run begins -/

/-- The content of a memo file that no run can begin with: it cannot be read though it exists, or it
is no JSON text. -/
def Damaged : Except Fault String → Prop
  | .error fault => fault ≠ .missing
  | .ok text => Json.Value.parse? text = none

/-- The memo that a run finds in the content of its memo file. -/
inductive Finds : Except Fault String → Memo → Prop where
  /-- Without a file the memo is empty. -/
  | absent : Finds (.error .missing) .empty
  /-- The file holds an object of strings. -/
  | memo {text : String} {members : List (String × Json.Value)} {memo : Memo}
    (hparse : Json.Value.parse? text = some (.object members))
    (hmade : Memo.MadeOf members memo) : Finds (.ok text) memo
  /-- A file that holds another value counts as empty. -/
  | other {text : String} {value : Json.Value} (hparse : Json.Value.parse? text = some value)
    (hvalue : ¬Memo.IsMapping value) : Finds (.ok text) .empty

/-- The memo that a run loads, given what reading a file gives. A run without a memo file loads the
empty one. -/
inductive Loads (options : Options) (content : String → Except Fault String) : Memo → Prop where
  | fresh (hcache : options.cache = none) : Loads options content .empty
  | found {path : String} {memo : Memo} (hcache : options.cache = some path)
    (hfinds : Finds (content path) memo) : Loads options content memo

/-- A run that has only loaded a memo: nothing is shown and nothing is counted. -/
structure Progress.BeginsWith (progress : Progress) (memo : Memo) : Prop where
  query : progress.query = ⟨memo⟩
  out : progress.out = ""
  failures : progress.failures = 0

/-- How a run begins: with an empty memo, or with what its memo file holds. -/
def opening (options : Options) (content : String → Except Fault String) :
    Except Failure Progress :=
  match options.cache with
  | none => .ok (.start .empty)
  | some path => begin path (content path)

theorem damaged_or_finds (content : Except Fault String) :
    Damaged content ∨ ∃ memo, Finds content memo := by
  cases content with
  | error fault =>
    by_cases hmissing : fault = .missing
    · subst hmissing
      exact .inr ⟨_, .absent⟩
    · exact .inl hmissing
  | ok text =>
    cases hparse : Json.Value.parse? text with
    | none => exact .inl hparse
    | some value =>
      by_cases hmapping : Memo.IsMapping value
      · rcases Memo.exists_ofValue_iff.mpr hmapping with ⟨memo, hvalue⟩
        rcases Memo.ofValue_eq_ok_iff.mp hvalue with ⟨members, rfl, hmade⟩
        exact .inr ⟨memo, .memo hparse hmade⟩
      · exact .inr ⟨_, .other hparse hmapping⟩

theorem exists_begin_of_damaged {content : Except Fault String} (h : Damaged content)
    (path : String) : ∃ failure, begin path content = .error failure := by
  cases content with
  | error fault =>
    cases fault with
    | missing => exact absurd rfl h
    | _ => exact ⟨_, rfl⟩
  | ok text =>
    rw [Damaged] at h
    exact ⟨.notJson path, by simp only [begin, h]⟩

theorem Finds.exists_begin {content : Except Fault String} {memo : Memo} (h : Finds content memo)
    (path : String) : ∃ begun, begin path content = .ok begun ∧ begun.BeginsWith memo := by
  cases h with
  | absent => exact ⟨_, rfl, rfl, rfl, rfl⟩
  | memo hparse hmade =>
    have hvalue := Memo.ofValue_eq_ok_iff.mpr ⟨_, rfl, hmade⟩
    refine ⟨.start memo, ?_, rfl, rfl, rfl⟩
    simp only [begin, hparse, hvalue]
  | other hparse hmapping =>
    rcases Memo.exists_rejection_iff.mpr hmapping with ⟨rejection, hvalue⟩
    refine ⟨(Progress.start .empty).warn "cache"
      ("ignoring " ++ path ++ ": " ++ rejection.message), ?_, rfl, rfl, rfl⟩
    simp only [begin, hparse, hvalue]

section Opening

variable {options : Options} {content : String → Except Fault String}

theorem damaged_or_loads (options : Options) (content : String → Except Fault String) :
    (∃ path, options.cache = some path ∧ Damaged (content path)) ∨
      ∃ memo, Loads options content memo := by
  cases hcache : options.cache with
  | none => exact .inr ⟨_, .fresh hcache⟩
  | some path =>
    rcases damaged_or_finds (content path) with hdamaged | ⟨memo, hfinds⟩
    · exact .inl ⟨path, rfl, hdamaged⟩
    · exact .inr ⟨memo, .found hcache hfinds⟩

theorem Loads.exists_opening {memo : Memo} (h : Loads options content memo) :
    ∃ begun, opening options content = .ok begun ∧ begun.BeginsWith memo := by
  cases h with
  | fresh hcache =>
    refine ⟨.start .empty, ?_, rfl, rfl, rfl⟩
    rw [opening, hcache]
  | @found path memo hcache hfinds =>
    obtain ⟨begun, hbegin, hbegun⟩ := hfinds.exists_begin path
    refine ⟨begun, ?_, hbegun⟩
    rw [opening, hcache]
    exact hbegin

/-- A run with a damaged memo file fails at once. -/
theorem execute_of_damaged {path : String} (hcache : options.cache = some path)
    (h : Damaged (content path)) :
    ∃ failure, execute options content = .done ((Progress.start .empty).stop failure) := by
  obtain ⟨failure, hbegin⟩ := exists_begin_of_damaged h path
  refine ⟨failure, ?_⟩
  simp only [execute, hcache, hbegin]

theorem execute_of_opening {begun : Progress} (h : opening options content = .ok begun) :
    execute options content = begun.finish options := by
  rw [opening] at h
  cases hcache : options.cache with
  | none =>
    rw [hcache] at h
    cases h
    simp only [execute, hcache]
  | some path =>
    simp only [hcache] at h
    simp only [execute, hcache, h]

/-- A run that does not come to the writing of its memo leaves the files as they are. -/
theorem run_of_done {files : Files} {outcome : Outcome}
    (h : execute options files.readText = .done outcome) :
    run options files = (outcome, files) := by
  simp only [run, h]

theorem run_of_save {files later : Files} {path text : String}
    {outcome : Except Fault Unit → Outcome}
    (h : execute options files.readText = .save path text outcome)
    (hwrite : files.writeText path text = .ok later) :
    run options files = (outcome (.ok ()), later) := by
  simp only [run, h, hwrite]

end Opening

/-! ## How a run ends -/

/-- The end of a run that has worked through its expressions: it writes the memo to the file, if
there is one. -/
def Progress.close (progress : Progress) (options : Options) (files : Files) : Outcome × Files :=
  match options.cache with
  | none => (progress.conclude options.selectors.length, files)
  | some path =>
    match files.writeText path progress.query.memo.toValue.pretty with
    | .ok later => (progress.conclude options.selectors.length, later)
    | .error fault => (progress.stop (.unwritable path fault), files)

theorem Progress.close_of_cache_eq_none (progress : Progress) {options : Options}
    (hcache : options.cache = none) (files : Files) :
    progress.close options files = (progress.conclude options.selectors.length, files) := by
  rw [close, hcache]

theorem Progress.close_of_cache_eq_some (progress : Progress) {options : Options} {path : String}
    (hcache : options.cache = some path) (files : Files) :
    progress.close options files =
      match files.writeText path progress.query.memo.toValue.pretty with
      | .ok later => (progress.conclude options.selectors.length, later)
      | .error fault => (progress.stop (.unwritable path fault), files) := by
  rw [close, hcache]

/-- A run that has begun compiles its expressions, and ends unless one of them stopped it. -/
theorem run_of_opening {options : Options} {files : Files} {begun : Progress}
    (h : opening options files.readText = .ok begun) :
    run options files =
      match compileAll options begun options.selectors with
      | (progress, some failure) => (progress.stop failure, files)
      | (progress, none) => progress.close options files := by
  cases hcache : options.cache with
  | none =>
    rw [opening, hcache] at h
    cases h
    rw [run_of_cache_eq_none hcache]
    obtain ⟨progress, failure⟩ := compileAll options (.start .empty) options.selectors
    cases failure with
    | some failure => rfl
    | none => exact (progress.close_of_cache_eq_none hcache files).symm
  | some path =>
    rw [opening, hcache] at h
    rw [run_of_cache_eq_some hcache h]
    obtain ⟨progress, failure⟩ := compileAll options begun options.selectors
    cases failure with
    | some failure => rfl
    | none => exact (progress.close_of_cache_eq_some hcache files).symm

namespace Progress

variable (progress : Progress) (options : Options) (files : Files)

/-- The end of a run shows nothing more on standard output. -/
theorem out_close : (progress.close options files).1.out = progress.out := by
  have hconclude (total : Nat) : (progress.conclude total).out = progress.out := by
    rw [conclude]
    split <;> rfl
  rw [close]
  split
  · exact hconclude _
  · split
    · exact hconclude _
    · rfl

/-- A run that has worked through its expressions fails when its memo cannot be written, or when one
of them has no path. -/
theorem exit_close_iff :
    (progress.close options files).1.exit = 1 ↔
      (∃ path, options.cache = some path ∧ ¬files.Writable path) ∨ progress.failures ≠ 0 := by
  have hconclude (total : Nat) : (progress.conclude total).exit = 1 ↔ progress.failures ≠ 0 := by
    rw [conclude]
    split <;> simp_all
  rw [close]
  cases options.cache with
  | none => simp [hconclude]
  | some path =>
    have hwritable := files.writable_iff_writeText path progress.query.memo.toValue.pretty
    cases hwrite : files.writeText path progress.query.memo.toValue.pretty with
    | ok later => simp [hconclude, hwritable, hwrite]
    | error fault => simp [stop, hwritable, hwrite]

end Progress

section Going

variable {options : Options} {memo : Memo}

/-- A run that loads a memo and works through its expressions. -/
theorem Loads.exists_completes {content : String → Except Fault String}
    (h : Loads options content memo)
    (hgoing : options.keepGoing = true ∨ ∀ expression ∈ options.selectors,
      Query.fails ⟨memo⟩ options.language expression = false) :
    ∃ begun progress, opening options content = .ok begun ∧
      compileAll options begun options.selectors = (progress, none) ∧
      Progress.Completes options options.selectors (.start memo) progress := by
  obtain ⟨begun, hopening, hquery, hout, hfailures⟩ := h.exists_opening
  rw [← hquery] at hgoing
  obtain ⟨progress, hcompiled, hcompletes⟩ := CommandLine.exists_completes hgoing
  refine ⟨begun, progress, hopening, hcompiled, ?_, ?_, ?_⟩
  · rw [hcompletes.query, hquery]
    rfl
  · rw [hcompletes.out, hquery, hout]
    rfl
  · rw [hcompletes.failures, hquery, hfailures]
    rfl

/-- The last step of such a run is to write the memo, with everything that it has learned. -/
theorem Loads.execute_saves {content : String → Except Fault String}
    (h : Loads options content memo)
    (hgoing : options.keepGoing = true ∨ ∀ expression ∈ options.selectors,
      Query.fails ⟨memo⟩ options.language expression = false)
    {path : String} (hcache : options.cache = some path) :
    ∃ outcome, execute options content =
      .save path (Query.learn ⟨memo⟩ options.language options.selectors).memo.toValue.pretty
        outcome := by
  obtain ⟨begun, progress, hopening, hcompiled, hcompletes⟩ := h.exists_completes hgoing
  have hlearned : progress.query = Query.learn ⟨memo⟩ options.language options.selectors :=
    hcompletes.query
  rw [execute_of_opening hopening, ← hlearned]
  simp only [Progress.finish, hcompiled, hcache]
  exact ⟨_, rfl⟩

variable {files : Files}

theorem Loads.exists_close (h : Loads options files.readText memo)
    (hgoing : options.keepGoing = true ∨ ∀ expression ∈ options.selectors,
      Query.fails ⟨memo⟩ options.language expression = false) :
    ∃ progress, Progress.Completes options options.selectors (.start memo) progress ∧
      run options files = progress.close options files := by
  obtain ⟨begun, progress, hopening, hcompiled, hcompletes⟩ := h.exists_completes hgoing
  refine ⟨progress, hcompletes, ?_⟩
  rw [run_of_opening hopening, hcompiled]

/-- The output of such a run is made of the texts of its expressions. -/
theorem Loads.out_of_going (h : Loads options files.readText memo)
    (hgoing : options.keepGoing = true ∨ ∀ expression ∈ options.selectors,
      Query.fails ⟨memo⟩ options.language expression = false) :
    (run options files).1.out =
      String.join (options.selectors.map (options.shownText ⟨memo⟩)) := by
  obtain ⟨progress, hcompletes, hrun⟩ := h.exists_close hgoing
  rw [hrun, Progress.out_close, hcompletes.out]
  exact String.empty_append

end Going

end SelectorCompiler.CommandLine
