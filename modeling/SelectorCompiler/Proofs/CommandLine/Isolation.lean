import SelectorCompiler.Proofs.CommandLine.Output

/-!
# Expressions of a run that goes on are independent

A run that goes on after a failure treats its expressions as separate runs would, each begun with
the same files. It shows what they show, one after another; it fails when one of them does; and the
memo that it writes is the union of theirs.

In the joint run the expressions share a memo, which earlier ones have extended. So each of the
three observations is first given by the memo that is loaded, for any list of expressions, and then
read off for the whole list and for each expression alone.
-/

namespace SelectorCompiler.CommandLine

/-- The same options for one expression alone. -/
def Options.only (options : Options) (expression : String) : Options :=
  { options with selectors := [expression] }

/-- The run ends by writing the memo to its file. -/
def Writes (options : Options) (files : Files) (memo : Memo) : Prop :=
  ∃ path outcome, options.cache = some path ∧
    execute options files.readText = .save path memo.toValue.pretty outcome ∧
    files.writeText path memo.toValue.pretty = .ok (run options files).2

/-! ## What the loaded memo decides -/

section Going

variable {options : Options} {files : Files} {memo : Memo}

theorem Loads.only (h : Loads options files.readText memo) (expression : String) :
    Loads (options.only expression) files.readText memo := by
  cases h with
  | fresh hcache => exact .fresh hcache
  | found hcache hfinds => exact .found hcache hfinds

/-- The output is made of the texts of the expressions. -/
theorem Loads.out_run (h : Loads options files.readText memo) (hgo : options.keepGoing = true) :
    (run options files).1.out =
      String.join (options.selectors.map (options.shownText ⟨memo⟩)) :=
  h.out_of_going (.inl hgo)

/-- The run fails when its memo cannot be written or one of the expressions has no path. -/
theorem Loads.exit_run_iff (h : Loads options files.readText memo)
    (hgo : options.keepGoing = true) :
    (run options files).1.exit = 1 ↔
      (∃ path, options.cache = some path ∧ ¬files.Writable path) ∨
        ∃ expression ∈ options.selectors,
          Query.fails ⟨memo⟩ options.language expression = true := by
  obtain ⟨progress, hcompletes, hrun⟩ := h.exists_close (.inl hgo)
  rw [hrun, Progress.exit_close_iff, hcompletes.failures]
  change _ ∨ 0 + List.countP (Query.fails ⟨memo⟩ options.language) options.selectors ≠ 0 ↔ _
  rw [Nat.zero_add, ← Nat.pos_iff_ne_zero, List.countP_pos_iff]

/-- The run writes what it has learned from its expressions, if it can write at all. -/
theorem Loads.writes_iff (h : Loads options files.readText memo) (hgo : options.keepGoing = true)
    {written : Memo} :
    Writes options files written ↔
      (∃ path, options.cache = some path ∧ files.Writable path) ∧
        written = (Query.learn ⟨memo⟩ options.language options.selectors).memo := by
  have hsave {path : String} (hcache : options.cache = some path) :=
    h.execute_saves (.inl hgo) hcache
  constructor
  · rintro ⟨path, outcome, hcache, hexecute, hwrite⟩
    obtain ⟨other, hother⟩ := hsave hcache
    rw [hother] at hexecute
    have htext := (Ending.save.inj hexecute).2.1
    refine ⟨⟨path, hcache, ?_⟩, (Memo.pretty_toValue_inj htext).symm⟩
    exact (files.writable_iff_writeText path written.toValue.pretty).mpr ⟨_, hwrite⟩
  · rintro ⟨⟨path, hcache, hwritable⟩, rfl⟩
    obtain ⟨outcome, hexecute⟩ := hsave hcache
    obtain ⟨later, hwrite⟩ := (files.writable_iff_writeText path _).mp hwritable
    refine ⟨path, outcome, hcache, hexecute, ?_⟩
    rw [run_of_save hexecute hwrite, hwrite]

end Going

/-- A run with a damaged memo file shows nothing, fails and writes nothing. -/
theorem run_shows_nothing {options : Options} {files : Files} {path : String}
    (hcache : options.cache = some path) (h : Damaged (files.readText path)) :
    (run options files).1.out = "" ∧ (run options files).1.exit = 1 ∧
      ∀ memo, ¬Writes options files memo := by
  obtain ⟨failure, hdone⟩ := execute_of_damaged hcache h
  rw [run_of_done hdone]
  refine ⟨rfl, rfl, ?_⟩
  rintro memo ⟨_, _, _, hexecute, _⟩
  rw [hdone] at hexecute
  cases hexecute

/-! ## The whole and its parts -/

section Parts

variable {options : Options} {files : Files} {memo : Memo}

/-- An expression alone shows its text. -/
theorem Loads.out_run_only (h : Loads options files.readText memo) (hgo : options.keepGoing = true)
    (expression : String) :
    (run (options.only expression) files).1.out = options.shownText ⟨memo⟩ expression := by
  rw [(h.only expression).out_run hgo]
  change String.join [options.shownText ⟨memo⟩ expression] = _
  simp

theorem Loads.exit_run_only_iff (h : Loads options files.readText memo)
    (hgo : options.keepGoing = true) (expression : String) :
    (run (options.only expression) files).1.exit = 1 ↔
      (∃ path, options.cache = some path ∧ ¬files.Writable path) ∨
        Query.fails ⟨memo⟩ options.language expression = true := by
  rw [(h.only expression).exit_run_iff hgo]
  simp [Options.only]

/-- A run whose memo file cannot be written fails with any expression, and there is one. -/
theorem Loads.exit_run_iff_only (h : Loads options files.readText memo)
    (hgo : options.keepGoing = true) (hsome : options.selectors ≠ []) :
    (run options files).1.exit = 1 ↔
      ∃ expression ∈ options.selectors, (run (options.only expression) files).1.exit = 1 := by
  simp only [h.exit_run_iff hgo, h.exit_run_only_iff hgo]
  constructor
  · rintro (hunwritable | ⟨expression, hmem, hfails⟩)
    · obtain ⟨first, hfirst⟩ := List.exists_mem_of_ne_nil _ hsome
      exact ⟨first, hfirst, .inl hunwritable⟩
    · exact ⟨expression, hmem, .inr hfails⟩
  · rintro ⟨expression, hmem, hunwritable | hfails⟩
    · exact .inl hunwritable
    · exact .inr ⟨expression, hmem, hfails⟩

/-- When a run writes, each of its expressions alone writes what it has learned. -/
theorem Loads.writes_only_iff (h : Loads options files.readText memo)
    (hgo : options.keepGoing = true) {written : Memo} (hwrites : Writes options files written)
    (expression : String) {own : Memo} :
    Writes (options.only expression) files own ↔
      own = (Query.learn ⟨memo⟩ options.language [expression]).memo := by
  have hwritable := ((h.writes_iff hgo).mp hwrites).1
  exact ((h.only expression).writes_iff hgo).trans (and_iff_right hwritable)

end Parts

/-- Texts without a character make a text without one. -/
theorem join_map_eq_empty {texts : String → String} (h : ∀ expression, texts expression = "")
    (expressions : List String) : String.join (expressions.map texts) = "" := by
  induction expressions with
  | nil => rfl
  | cons expression rest ih =>
    rw [List.map_cons, String.join_cons, ih, h]
    rfl

/-- A run that is to go on is the sum of the runs of its expressions, each alone and begun with the
same files. What it prints on standard output is what they print, in order. It fails exactly when
one of them fails. When it writes a memo they all do, and it writes the entries that one of them
writes. -/
theorem run_isolates {options : Options} (hgo : options.keepGoing = true)
    (hsome : options.selectors ≠ []) (files : Files) :
    (run options files).1.out =
      String.join (options.selectors.map fun expression ↦
        (run (options.only expression) files).1.out) ∧
    ((run options files).1.exit = 1 ↔
      ∃ expression ∈ options.selectors, (run (options.only expression) files).1.exit = 1) ∧
    ∀ memo, Writes options files memo →
      (∀ expression ∈ options.selectors, ∃ own, Writes (options.only expression) files own) ∧
      ∀ selector path, memo.get? selector = some path ↔
        ∃ expression ∈ options.selectors, ∃ own,
          Writes (options.only expression) files own ∧ own.get? selector = some path := by
  rcases damaged_or_loads options files.readText with ⟨path, hcache, hdamaged⟩ | ⟨loaded, hloads⟩
  · -- None of the runs begins.
    obtain ⟨hout, hexit, hwrites⟩ := run_shows_nothing hcache hdamaged
    have honly (expression : String) : (run (options.only expression) files).1.out = "" ∧
        (run (options.only expression) files).1.exit = 1 ∧ _ :=
      run_shows_nothing hcache hdamaged
    refine ⟨?_, ?_, fun memo h ↦ absurd h (hwrites memo)⟩
    · rw [hout, join_map_eq_empty fun expression ↦ (honly expression).1]
    · obtain ⟨first, hfirst⟩ := List.exists_mem_of_ne_nil _ hsome
      exact iff_of_true hexit ⟨first, hfirst, (honly first).2.1⟩
  · refine ⟨?_, hloads.exit_run_iff_only hgo hsome, ?_⟩
    · simp only [hloads.out_run hgo, hloads.out_run_only hgo]
    · intro memo hwrites
      have hown (expression : String) (own : Memo) :
          Writes (options.only expression) files own ↔ _ :=
        hloads.writes_only_iff hgo hwrites expression
      obtain ⟨-, rfl⟩ := (hloads.writes_iff hgo).mp hwrites
      refine ⟨fun expression _ ↦ ⟨_, (hown expression _).mpr rfl⟩, ?_⟩
      intro selector path
      rw [Query.get?_learn_iff _ _ hsome]
      simp only [hown, exists_eq_left]

/-- An expression that leaves a selector in the memo and fails, and one that finds it there. -/
theorem run_isolates_of_shared_selector :
    let options : Options := ⟨["a, b:x", "p, a"], .css, some "memo.json", true, true, true⟩
    options.keepGoing = true ∧ options.selectors ≠ [] ∧
      (run options .empty).1.out =
        String.join (options.selectors.map fun expression ↦
          (run (options.only expression) .empty).1.out) ∧
      (∃ expression ∈ options.selectors, (run (options.only expression) .empty).1.exit = 1) ∧
      Writes options .empty (.ofList [("a", "//a"), ("p", "//p")]) ∧
      ∃ expression ∈ options.selectors, ∃ own,
        Writes (options.only expression) .empty own ∧ own.get? "p" = some "//p" := by
  intro options
  have hgo : options.keepGoing = true := rfl
  have hsome : options.selectors ≠ [] := by decide
  have hexit : (run options .empty).1.exit = 1 := by decide +kernel
  have hloads : Loads options Files.empty.readText .empty := by
    have hread : Files.empty.readText "memo.json" = .error .missing := by rfl
    refine .found rfl ?_
    rw [hread]
    exact .absent
  have hwrites : Writes options .empty (.ofList [("a", "//a"), ("p", "//p")]) := by
    rw [hloads.writes_iff hgo]
    let place : Location := ⟨["work", "memo.json"]⟩
    refine ⟨⟨"memo.json", rfl, .free place false, place, by rfl, rfl, rfl⟩, ?_⟩
    decide +kernel
  obtain ⟨hout, hfails, hunion⟩ := run_isolates hgo hsome .empty
  exact ⟨hgo, hsome, hout, hfails.mp hexit, hwrites,
    ((hunion _ hwrites).2 "p" "//p").mp (by decide +kernel)⟩

end SelectorCompiler.CommandLine
