import SelectorCompiler.Proofs.CommandLine.Output

/-!
# What a run does to the files

A run writes at most one file, its memo file, and it does so as its last step: with the whole memo,
or not at all. So a run that fails on the way leaves every file as it was, and a run that comes to
its end and can write keeps every entry that it has loaded.

There are three ways through a run. The memo file is damaged, an expression without a path stops the
run, or the run works through all its expressions; `damaged_or_loads` and the options say which.
Each way is first followed in `execute`, whatever reading the memo file gives, and then with the
files of a directory.
-/

namespace SelectorCompiler.CommandLine

/-! ## The memo file -/

/-- The place of the memo file, whether or not the file exists. -/
def Options.IsMemoPlace (options : Options) (files : Files) (place : Location) : Prop :=
  ∃ path target, options.cache = some path ∧ files.resolve path = .ok target ∧
    target.place? = some place

/-- Only the memo file is written. -/
theorem cache_of_execute {options : Options} {content : String → Except Fault String}
    {path text : String} {outcome : Except Fault Unit → Outcome}
    (h : execute options content = .save path text outcome) : options.cache = some path := by
  have hfinish {progress : Progress} (hsave : progress.finish options = .save path text outcome) :
      options.cache = some path := by
    rw [Progress.finish] at hsave
    split at hsave
    · cases hsave
    · cases hsave
    · next hcache =>
      cases hsave
      exact hcache
  rcases damaged_or_loads options content with ⟨other, hcache, hdamaged⟩ | ⟨memo, hloads⟩
  · obtain ⟨failure, hdone⟩ := execute_of_damaged hcache hdamaged
    rw [hdone] at h
    cases h
  · obtain ⟨begun, hopening, -⟩ := hloads.exists_opening
    rw [execute_of_opening hopening] at h
    exact hfinish h

/-- A run leaves the files as they are, or has written to its memo file. -/
theorem run_files (options : Options) (files : Files) :
    (run options files).2 = files ∨
      ∃ path text, options.cache = some path ∧
        files.writeText path text = .ok (run options files).2 := by
  cases hexecute : execute options files.readText with
  | done outcome =>
    rw [run_of_done hexecute]
    exact .inl rfl
  | save path text outcome =>
    cases hwrite : files.writeText path text with
    | ok later =>
      rw [run_of_save hexecute hwrite]
      exact .inr ⟨path, text, cache_of_execute hexecute, hwrite⟩
    | error fault =>
      left
      simp only [run, hexecute, hwrite]

/-- No place changes but that of the memo file. -/
theorem get?_run {options : Options} {files : Files} {place : Location}
    (h : ¬options.IsMemoPlace files place) :
    (run options files).2.get? place = files.get? place := by
  rcases run_files options files with hsame | ⟨path, text, hcache, hwrite⟩
  · rw [hsame]
  · apply Files.get?_of_writeText hwrite
    intro target hresolve hplace
    exact h ⟨path, target, hcache, hresolve, hplace⟩

/-! ## Runs that stop, and runs that do not -/

/-- The run is not to go on, and one of its expressions has no path. -/
def Options.Stops (options : Options) (memo : Memo) : Prop :=
  options.keepGoing = false ∧ ∃ expression ∈ options.selectors,
    Query.fails ⟨memo⟩ options.language expression = true

theorem Options.going_of_not_stops {options : Options} {memo : Memo} (h : ¬options.Stops memo) :
    options.keepGoing = true ∨ ∀ expression ∈ options.selectors,
      Query.fails ⟨memo⟩ options.language expression = false := by
  by_cases hgo : options.keepGoing = true
  · exact .inl hgo
  · right
    intro expression hmem
    apply Bool.eq_false_iff.mpr
    intro hfails
    exact h ⟨Bool.eq_false_iff.mpr hgo, expression, hmem, hfails⟩

/-- The memo after all expressions are compiled. -/
def Options.learned (options : Options) (memo : Memo) : Memo :=
  (Query.learn ⟨memo⟩ options.language options.selectors).memo

/-- What a run shows that stops at its first expression without a path: what stands before it, and
the segments of that expression. -/
def ShowsUntilFailure (options : Options) (query : Query) (out : String) : Prop :=
  ∃ before expression after, options.selectors = before ++ expression :: after ∧
    (∀ earlier ∈ before, query.fails options.language earlier = false) ∧
    query.fails options.language expression = true ∧
    out = String.join (before.map (options.shownText query)) ++ options.segmentsText expression

section Loaded

variable {options : Options} {memo : Memo}

/-- A run that is not to go on stops at the first expression without a path, and writes nothing. -/
theorem Loads.execute_stops {content : String → Except Fault String}
    (h : Loads options content memo) (hstops : options.Stops memo) :
    ∃ outcome, execute options content = .done outcome ∧ outcome.exit = 1 ∧
      ShowsUntilFailure options ⟨memo⟩ outcome.out := by
  obtain ⟨hstop, hfails⟩ := hstops
  obtain ⟨first, hfirst⟩ := Option.isSome_iff_exists.mp (List.find?_isSome.mpr hfails)
  obtain ⟨hfailing, before, after, hselectors, hbefore⟩ := List.find?_eq_some_iff_append.mp hfirst
  simp only [Bool.not_eq_true'] at hbefore
  obtain ⟨begun, hopening, hquery, hout, -⟩ := h.exists_opening
  rw [← hquery] at hbefore hfailing ⊢
  obtain ⟨error, herror⟩ := Query.fails_iff.mp hfailing
  obtain ⟨stopped, hcompiled, hshown⟩ : ∃ stopped, compileAll options begun options.selectors =
      (stopped, some (.notCompiled first error)) ∧ stopped.out = _ := by
    rw [hselectors]
    exact exists_stopped hstop hbefore herror
  refine ⟨stopped.stop (.notCompiled first error), ?_, rfl, before, first, after, hselectors,
    hbefore, hfailing, ?_⟩
  · rw [execute_of_opening hopening, Progress.finish, hcompiled]
  · rw [hout, String.empty_append] at hshown
    exact hshown

/-- Everything that was loaded is still known at the end. -/
theorem Options.get?_learned {selector compiled : String} (h : memo.get? selector = some compiled) :
    (options.learned memo).get? selector = some compiled := by
  rw [OrderedMap.get?_eq_some_iff] at h ⊢
  exact (Query.entries_prefix_learn ⟨memo⟩ _ _).subset h

variable {files : Files}

theorem Loads.run_stops (h : Loads options files.readText memo) (hstops : options.Stops memo) :
    (run options files).2 = files ∧ (run options files).1.exit = 1 ∧
      ShowsUntilFailure options ⟨memo⟩ (run options files).1.out := by
  obtain ⟨outcome, hexecute, hexit, hshown⟩ := h.execute_stops hstops
  rw [run_of_done hexecute]
  exact ⟨rfl, hexit, hshown⟩

/-- A run that works through its expressions and can write leaves the memo in its file, with
everything that it has learned. -/
theorem Loads.run_saves (h : Loads options files.readText memo) (hstops : ¬options.Stops memo)
    {path : String} (hcache : options.cache = some path) {later : Files}
    (hwrite : files.writeText path (options.learned memo).fileText = .ok later) :
    (run options files).2 = later ∧ later.readText path = .ok (options.learned memo).fileText := by
  obtain ⟨outcome, hexecute⟩ := h.execute_saves (options.going_of_not_stops hstops) hcache
  rw [Memo.pretty_toValue] at hexecute
  rw [run_of_save hexecute hwrite]
  refine ⟨rfl, Files.readText_of_writeText hwrite ?_⟩
  -- The memo was found at the path, so reading is not refused there.
  intro reason hrefused
  cases h with
  | fresh hnone =>
    rw [hnone] at hcache
    cases hcache
  | found hsome hfinds =>
    rw [hsome] at hcache
    cases hcache
    rw [hrefused] at hfinds
    cases hfinds

end Loaded

/-! ## The files of a run -/

/-- What the program does to the files when it is asked to compile.

Whatever reading the memo file gives, the run writes at most once, at its end, and only to that
file. It fails without writing when the file is damaged, or when it is not to go on and an
expression has no path. In the latter case it has shown the expressions before that one, and its
segments. Any other run with a memo file writes the text of its memo, which is read back as the memo
and holds all that was loaded.

So in a directory nothing changes but the memo file, nothing at all where the run does not write,
and where it can write the file holds that text. -/
theorem invoke_keeps_files {arguments : List String} {options : Options}
    (h : Request.ofArguments arguments = .ok (.compile options)) :
    (∀ content : String → Except Fault String,
      (∀ path text outcome, execute options content = .save path text outcome →
        options.cache = some path) ∧
      ((∃ path, options.cache = some path ∧ Damaged (content path)) →
        ∃ outcome, execute options content = .done outcome ∧ outcome.exit = 1) ∧
      ((¬∃ path, options.cache = some path ∧ Damaged (content path)) →
        ∃ memo, Loads options content memo) ∧
      ∀ memo, Loads options content memo →
        (options.Stops memo → ∃ outcome, execute options content = .done outcome ∧
          outcome.exit = 1 ∧ ShowsUntilFailure options ⟨memo⟩ outcome.out) ∧
        (¬options.Stops memo → ∀ path, options.cache = some path →
          ∃ outcome, execute options content =
            .save path (options.learned memo).fileText outcome) ∧
        (Json.Value.parse? (options.learned memo).fileText).bind Memo.ofDocument? =
          some (options.learned memo) ∧
        ∀ selector compiled, memo.get? selector = some compiled →
          (options.learned memo).get? selector = some compiled) ∧
    ∀ files : Files,
      (∀ place, ¬options.IsMemoPlace files place →
        (invoke arguments files).2.get? place = files.get? place) ∧
      ((∃ path, options.cache = some path ∧ Damaged (files.readText path)) →
        (invoke arguments files).2 = files ∧ (invoke arguments files).1.exit = 1) ∧
      ∀ memo, Loads options files.readText memo →
        (options.Stops memo →
          (invoke arguments files).2 = files ∧ (invoke arguments files).1.exit = 1 ∧
            ShowsUntilFailure options ⟨memo⟩ (invoke arguments files).1.out) ∧
        (¬options.Stops memo → ∀ path later, options.cache = some path →
          files.writeText path (options.learned memo).fileText = .ok later →
            (invoke arguments files).2 = later ∧
            later.readText path = .ok (options.learned memo).fileText) := by
  have hdamage {content : String → Except Fault String}
      (hdamaged : ∃ path, options.cache = some path ∧ Damaged (content path)) :
      ∃ outcome, execute options content = .done outcome ∧ outcome.exit = 1 := by
    rcases hdamaged with ⟨path, hcache, hdamaged⟩
    obtain ⟨failure, hdone⟩ := execute_of_damaged hcache hdamaged
    exact ⟨_, hdone, rfl⟩
  constructor
  · intro content
    refine ⟨fun path text outcome ↦ cache_of_execute, hdamage,
      (damaged_or_loads options content).resolve_left, ?_⟩
    intro memo hloads
    refine ⟨hloads.execute_stops, ?_, Memo.ofDocument?_fileText _,
      fun selector compiled ↦ Options.get?_learned⟩
    intro hstops path hcache
    obtain ⟨outcome, hexecute⟩ := hloads.execute_saves (options.going_of_not_stops hstops) hcache
    rw [Memo.pretty_toValue] at hexecute
    exact ⟨outcome, hexecute⟩
  · intro files
    have hinvoke : invoke arguments files = run options files := by simp only [invoke, h]
    rw [hinvoke]
    refine ⟨fun place ↦ get?_run, ?_, ?_⟩
    · intro hdamaged
      obtain ⟨outcome, hdone, hexit⟩ := hdamage hdamaged
      rw [run_of_done hdone]
      exact ⟨rfl, hexit⟩
    · intro memo hloads
      refine ⟨hloads.run_stops, ?_⟩
      intro hstops path later hcache hwrite
      exact hloads.run_saves hstops hcache hwrite

/-- With a memo file that holds a selector, two expressions stop a run, and are worked through by a
run that is to go on. Where the file may not be read, nothing is done at all. -/
theorem invoke_keeps_files_of_failure :
    let memo : Memo := .ofList [("p", "//q")]
    let files := Files.empty.put ⟨["work", "memo.json"]⟩ (.file "\x7b\"p\":\"//q\"\x7d".toUTF8)
    let closed : Files :=
      { files with refusal? := fun _ _ ↦ some "Permission denied (os error 13)" }
    let options : Options := ⟨["a", "b:x"], .css, some "memo.json", false, true, false⟩
    let arguments := ["-s", "-c", "memo.json", "a", "b:x"]
    Request.ofArguments arguments = .ok (.compile options) ∧
      Loads options files.readText memo ∧ options.Stops memo ∧
      (invoke arguments files).2 = files ∧ (invoke arguments files).1.exit = 1 ∧
      ShowsUntilFailure options ⟨memo⟩ (invoke arguments files).1.out ∧
      (invoke arguments files).1.out =
        "\x7b\n  \"chunk\": \"a\",\n  \"segments\": [\n    \x7b\n      \"selector\": \"a\",\n" ++
          "      \"tag\": \"a\",\n      \"id\": null,\n      \"classes\": [],\n" ++
          "      \"attributes\": \x7b\x7d,\n      \"pseudo\": null,\n      \"child\": false\n" ++
          "    \x7d\n  ]\n\x7d\n" ++
          "\x1b[2ma\x1b[0m \x1b[1m=>\x1b[0m \x1b[32m//a\x1b[39m\n" ++
          "\x7b\n  \"chunk\": \"b:x\",\n  \"segments\": [\n    \x7b\n" ++
          "      \"selector\": \"b:x\",\n" ++
          "      \"tag\": \"b\",\n      \"id\": null,\n      \"classes\": [],\n" ++
          "      \"attributes\": \x7b\x7d,\n" ++
          "      \"pseudo\": \x7b\n        \"name\": \"x\",\n" ++
          "        \"expression\": null\n      \x7d,\n      \"child\": false\n" ++
          "    \x7d\n  ]\n\x7d\n" ∧
      (invoke arguments closed).2 = closed ∧ (invoke arguments closed).1.exit = 1 ∧
      Request.ofArguments ("-k" :: arguments) = .ok (.compile { options with keepGoing := true }) ∧
      (invoke ("-k" :: arguments) files).2.readText "memo.json" =
        .ok "\x7b\n  \"p\": \"//q\",\n  \"a\": \"//a\"\n\x7d" ∧
      (Json.Value.parse? "\x7b\n  \"p\": \"//q\",\n  \"a\": \"//a\"\n\x7d").bind Memo.ofDocument? =
        some (.ofList [("p", "//q"), ("a", "//a")]) := by
  intro memo files closed options arguments
  have hstop : Request.ofArguments arguments = .ok (.compile options) := by decide +kernel
  have hgo : Request.ofArguments ("-k" :: arguments) =
      .ok (.compile { options with keepGoing := true }) := by decide +kernel
  have hfinds : Finds (files.readText "memo.json") memo := by
    have hread : files.readText "memo.json" = .ok memo.toValue.compact := by decide +kernel
    have hvalue : Memo.ofValue memo.toValue = .ok memo := by decide +kernel
    rcases Memo.ofValue_eq_ok_iff.mp hvalue with ⟨members, hmembers, hmade⟩
    rw [hread]
    apply Finds.memo _ hmade
    rw [← hmembers]
    exact memo.parse?_write_toValue Json.Layout.spaced_compact
  have hstops : options.Stops memo := ⟨rfl, "b:x", by decide, by decide +kernel⟩
  have htext : ({ options with keepGoing := true }.learned memo).fileText =
      "\x7b\n  \"p\": \"//q\",\n  \"a\": \"//a\"\n\x7d" := by decide +kernel
  have hclosed : Damaged (closed.readText "memo.json") := by
    have hread : closed.readText "memo.json" =
        .error (.other "Permission denied (os error 13)") := by decide +kernel
    rw [hread]
    exact Fault.noConfusion
  obtain ⟨-, hstopped⟩ := invoke_keeps_files hstop
  obtain ⟨hreads, hgone⟩ := invoke_keeps_files hgo
  obtain ⟨hsame, hexit, hshown⟩ := ((hstopped files).2.2 memo (.found rfl hfinds)).1 hstops
  obtain ⟨hnothing, hfailure⟩ := (hstopped closed).2.1 ⟨"memo.json", rfl, hclosed⟩
  have hloads : Loads { options with keepGoing := true } files.readText memo := .found rfl hfinds
  have hgoing : ¬{ options with keepGoing := true }.Stops memo := fun hstops ↦ nomatch hstops.1
  obtain ⟨-, -, hback, -⟩ := (hreads files.readText).2.2.2 memo hloads
  have hwritable : files.Writable "memo.json" :=
    ⟨.file ⟨["work", "memo.json"]⟩ _, ⟨["work", "memo.json"]⟩, by rfl, rfl, rfl⟩
  obtain ⟨later, hwrite⟩ := (files.writable_iff_writeText _ _).mp hwritable
  obtain ⟨hlater, hread⟩ :=
    ((hgone files).2.2 memo hloads).2 hgoing "memo.json" later rfl hwrite
  have hlearned : { options with keepGoing := true }.learned memo =
      .ofList [("p", "//q"), ("a", "//a")] := by decide +kernel
  rw [htext] at hread hback
  refine ⟨hstop, .found rfl hfinds, hstops, hsame, hexit, hshown, by decide +kernel, hnothing,
    hfailure, hgo, ?_, ?_⟩
  · rw [hlater, hread]
  · rw [hback, hlearned]

end SelectorCompiler.CommandLine
