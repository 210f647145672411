import SelectorCompiler.Proofs.Query.Outcome
import SelectorCompiler.Proofs.Selector.Reading
import SelectorCompiler.Proofs.Text.Trimming
import SelectorCompiler.Query.Session

/-!
# Memos are transparent

A session may copy queries, hand memos over and load memos that it has listed before. As long as it
loads no memo from elsewhere, every entry of every memo is what compiling its selector gives, and
every answer is the one of a query that has compiled nothing yet.

One step keeps the invariant `Session.Sound`, in `Session.sound_perform`; the main statement is
`Session.run_transparent`.
-/

namespace SelectorCompiler

/-! ## Faithful memos -/

namespace Memo

/-- An entry that compilation stores: a trimmed selector without commas, and its path. -/
structure Genuine (entry : String × String) : Prop where
  /-- The selector has no white space around it. -/
  trimmed : Text.trimString entry.1 = entry.1
  /-- The selector is not empty. -/
  nonempty : entry.1 ≠ ""
  /-- The selector is a single one and not a list. -/
  single : ',' ∉ entry.1.toList
  /-- The path is the compiled one. -/
  compiled : compileSelector entry.1 .descendant = .ok entry.2

/-- Every entry is genuine. -/
def Faithful (memo : Memo) : Prop :=
  ∀ entry ∈ memo.entries, Genuine entry

theorem faithful_empty : Faithful .empty := by
  intro entry h
  cases h

/-- A memo made from genuine entries is faithful. -/
theorem faithful_ofList {entries : List (String × String)}
    (h : ∀ entry ∈ entries, Genuine entry) : Faithful (.ofList entries) := by
  intro entry hmem
  exact h entry (OrderedMap.mem_of_mem_entries_ofList hmem)

/-- A faithful memo answers what compilation answers. -/
theorem outcome_of_faithful {memo : Memo} (h : memo.Faithful) :
    memo.outcome = outcome .empty := by
  funext selector
  cases hget : memo.get? selector with
  | none => rw [outcome_of_get?_eq_none hget, outcome_empty]
  | some path =>
    have hcompiled := (h _ (OrderedMap.get?_eq_some_iff.mp hget)).compiled
    rw [outcome_of_get?_eq_some hget, outcome_empty, hcompiled]

/-- The members of an object of strings are the pairs that they are read as. -/
theorem map_of_strings_eq_ok {members : List (String × Json.Value)}
    {entries : List (String × String)} (h : strings members = .ok entries) :
    members = entries.map fun entry ↦ (entry.1, .string entry.2) := by
  induction members generalizing entries with
  | nil =>
    cases h
    rfl
  | cons member rest ih =>
    obtain ⟨key, value⟩ := member
    cases value with
    | string text =>
      rw [strings] at h
      cases hrest : strings rest with
      | error rejection =>
        rw [hrest] at h
        cases h
      | ok later =>
        rw [hrest] at h
        cases h
        rw [List.map_cons, ih hrest]
    | _ => cases h

/-- The entries of a memo read from an object are its members in the order of their keys. -/
theorem strings_of_ofValue {members : List (String × Json.Value)} {memo : Memo}
    (h : ofValue (.object members) = .ok memo) :
    strings (OrderedMap.ofList members).sorted.entries = .ok memo.entries := by
  rw [ofValue] at h
  cases hstrings : strings (OrderedMap.ofList members).sorted.entries with
  | error rejection =>
    rw [hstrings] at h
    cases h
  | ok entries =>
    rw [hstrings] at h
    cases h
    have hkeys : (entries.map Prod.fst).Nodup := by
      have hdistinct := (OrderedMap.ofList members).sorted.distinct
      rw [map_of_strings_eq_ok hstrings, List.map_map] at hdistinct
      exact hdistinct
    rw [OrderedMap.entries_ofList hkeys]

/-- A memo read from an object has only entries that are members of the object. -/
theorem mem_of_ofValue_eq_ok {members : List (String × Json.Value)} {memo : Memo}
    (h : ofValue (.object members) = .ok memo) {entry : String × String}
    (hmem : entry ∈ memo.entries) : (entry.1, .string entry.2) ∈ members := by
  have hsorted : (entry.1, .string entry.2) ∈ (OrderedMap.ofList members).sorted.entries := by
    rw [map_of_strings_eq_ok (strings_of_ofValue h)]
    exact List.mem_map.mpr ⟨entry, hmem, rfl⟩
  exact OrderedMap.mem_of_mem_entries_ofList (OrderedMap.mem_entries_sorted.mp hsorted)

end Memo

/-- The selectors of a list are trimmed and hold no comma. -/
theorem trimmed_of_mem_selectorsOf {expression selector : String}
    (h : selector ∈ selectorsOf expression) :
    Text.trimString selector = selector ∧ ',' ∉ selector.toList := by
  obtain ⟨piece, hpiece, rfl⟩ := List.mem_map.mp h
  refine ⟨Text.trimString_trimString piece, ?_⟩
  intro hmem
  rw [Text.toList_trimString] at hmem
  exact Text.not_mem_of_mem_pieces hpiece ((Text.trim_sublist _).subset hmem)

/-- The empty selector has no path. -/
theorem compileSelector_empty (axis : XPath.Axis) :
    compileSelector "" axis = .error (.invalidSelector "") := by
  have hreading : Reading.ofSelector "" = ⟨[], some ""⟩ := Reading.ofChars_nil
  rw [compileSelector, hreading]
  rfl

/-- Compilation keeps a memo faithful, also when it ends with an error. -/
theorem Query.faithful_compile {query : Query} (h : query.memo.Faithful) (expression : String)
    (language : Language) : (query.compile expression language).2.memo.Faithful := by
  cases language with
  | xpath => exact h
  | css =>
    intro entry hmem
    rcases mem_entries_compileSelectors hmem with hold | ⟨hselector, hcompiled⟩
    · exact h entry hold
    · obtain ⟨htrimmed, hsingle⟩ := trimmed_of_mem_selectorsOf hselector
      refine ⟨htrimmed, ?_, hsingle, hcompiled⟩
      intro hempty
      rw [hempty, compileSelector_empty] at hcompiled
      cases hcompiled

/-! ## Sessions that load only what they listed -/

/-- The lists of entries that an answer shows. -/
def Query.Answer.listed : Query.Answer → List (List (String × String))
  | .entries shown => [shown]
  | _ => []

/-- The entries that the command loads, if any, are among `listed`: as they are, or as the members
of a JSON object in some order. -/
def Query.Command.LoadsFrom (listed : List (List (String × String))) : Query.Command → Prop
  | .resume entries => entries ∈ listed
  | .replace entries => entries ∈ listed
  | .replaceFromValue value =>
    ∃ entries ∈ listed, ∃ members, value = .object members ∧
      members.Perm (entries.map fun entry ↦ (entry.1, .string entry.2))
  | _ => True

namespace Session

/-- Perform commands one after another, each on the query with its name; also the answers. -/
def run (session : Session) : List (String × Query.Command) → Session × List Query.Answer
  | [] => (session, [])
  | (name, command) :: rest =>
    let performed := session.perform name command
    let later := performed.1.run rest
    (later.1, performed.2 :: later.2)

/-- No command loads a memo from elsewhere: what it loads is among `listed` or was listed by a
command before it. -/
def Closed (session : Session) (listed : List (List (String × String))) :
    List (String × Query.Command) → Prop
  | [] => True
  | (name, command) :: rest =>
    command.LoadsFrom listed ∧
      Closed (session.perform name command).1
        (listed ++ (session.perform name command).2.listed) rest

/-- Every memo of the session and everything it has listed is genuine. -/
structure Sound (session : Session) (listed : List (List (String × String))) : Prop where
  /-- The memos are faithful. -/
  memos : ∀ name, (session.query name).memo.Faithful
  /-- The lists have genuine entries only. -/
  lists : ∀ entries ∈ listed, ∀ entry ∈ entries, Memo.Genuine entry

theorem sound_new : new.Sound [] := by
  refine ⟨fun _ ↦ Memo.faithful_empty, ?_⟩
  intro entries h
  cases h

end Session

/-- A command that loads only genuine entries keeps the memo of its query faithful. -/
theorem Query.faithful_perform {query : Query} {command : Query.Command}
    {listed : List (List (String × String))} (h : query.memo.Faithful)
    (hlisted : ∀ entries ∈ listed, ∀ entry ∈ entries, Memo.Genuine entry)
    (hloads : command.LoadsFrom listed) : (query.perform command).1.memo.Faithful := by
  cases command with
  | reset => exact Memo.faithful_empty
  | resume entries => exact Memo.faithful_ofList (hlisted entries hloads)
  | replace entries => exact Memo.faithful_ofList (hlisted entries hloads)
  | compile expression language => exact faithful_compile h expression language
  | compileAs expression token => exact faithful_compile h expression (.ofToken token)
  | replaceFromValue value =>
    obtain ⟨entries, hmem, members, rfl, hperm⟩ := hloads
    rw [perform]
    cases hvalue : Memo.ofValue (.object members) with
    | error rejection => exact h
    | ok memo =>
      intro entry hentry
      have hmember := hperm.mem_iff.mp (Memo.mem_of_ofValue_eq_ok hvalue hentry)
      obtain ⟨same, hsame, heq⟩ := List.mem_map.mp hmember
      have : same = entry := by
        simpa [Prod.ext_iff] using heq
      subst this
      exact hlisted entries hmem same hsame
  | list => exact h
  | find selector => exact h
  | size => exact h
  | handOver => exact h
  | copyTo name => exact h

/-- What a command lists are the entries of its query. -/
theorem Query.eq_entries_of_mem_listed {query : Query} {command : Query.Command}
    {entries : List (String × String)} (h : entries ∈ (query.perform command).2.listed) :
    entries = query.memo.entries := by
  cases command with
  | list => exact List.mem_singleton.mp h
  | handOver => exact List.mem_singleton.mp h
  | replaceFromValue value =>
    rw [perform] at h
    cases hvalue : Memo.ofValue value <;> rw [hvalue] at h <;> cases h
  | _ => cases h

/-- A command on a faithful memo that compiles answers as on an empty one. -/
theorem Query.compile_fst_of_faithful {query : Query} (h : query.memo.Faithful)
    (expression : String) (language : Language) :
    (query.compile expression language).1 = (new.compile expression language).1 :=
  compile_fst_congr (Memo.outcome_of_faithful h) expression language

namespace Session

theorem perform_snd (session : Session) (name : String) (command : Query.Command) :
    (session.perform name command).2 = ((session.query name).perform command).2 := by
  cases command <;> rfl

/-- After a command every query is the one the command left behind or has not changed. -/
theorem query_perform (session : Session) (name other : String) (command : Query.Command) :
    (session.perform name command).1.query other = ((session.query name).perform command).1 ∨
      (session.perform name command).1.query other = session.query other := by
  have write (queries : OrderedMap String Query) (written : Query) (key : String) :
      (Session.mk (queries.insert key written)).query other = written ∨
        (Session.mk (queries.insert key written)).query other =
          (Session.mk queries).query other := by
    simp only [query, OrderedMap.get?_insert]
    by_cases ho : other = key
    · left
      rw [if_pos ho, Option.getD_some]
    · right
      rw [if_neg ho]
  -- Only a copy writes a second query, and it writes the same one.
  cases command with
  | copyTo target =>
    rcases write (session.queries.insert name (session.query name)) (session.query name) target with
      hnew | hold
    · exact .inl hnew
    · rcases write session.queries (session.query name) name with hnew | hsame
      · exact .inl (hold.trans hnew)
      · exact .inr (hold.trans hsame)
  | _ => exact write session.queries _ name

/-- A command that loads only what was listed keeps the session sound, with what it lists itself. -/
theorem sound_perform {session : Session} {listed : List (List (String × String))}
    (h : session.Sound listed) {name : String} {command : Query.Command}
    (hloads : command.LoadsFrom listed) :
    (session.perform name command).1.Sound (listed ++ (session.perform name command).2.listed) := by
  constructor
  · intro other
    rcases session.query_perform name other command with hnew | hold
    · rw [hnew]
      exact Query.faithful_perform (h.memos name) h.lists hloads
    · rw [hold]
      exact h.memos other
  · intro entries hmem
    rcases List.mem_append.mp hmem with hmem | hmem
    · exact h.lists entries hmem
    · rw [perform_snd] at hmem
      rw [Query.eq_entries_of_mem_listed hmem]
      exact h.memos name

/-- A run that loads only what was listed ends with faithful memos. -/
theorem faithful_run {session : Session} {listed : List (List (String × String))}
    {steps : List (String × Query.Command)} (h : session.Sound listed)
    (hclosed : session.Closed listed steps) (name : String) :
    ((session.run steps).1.query name).memo.Faithful := by
  induction steps generalizing session listed with
  | nil => exact h.memos name
  | cons step rest ih => exact ih (sound_perform h hclosed.1) hclosed.2

/-- The front part of a closed run is closed. -/
theorem Closed.take {session : Session} {listed : List (List (String × String))}
    {steps : List (String × Query.Command)} (h : session.Closed listed steps) (count : Nat) :
    session.Closed listed (steps.take count) := by
  induction steps generalizing session listed count with
  | nil =>
    rw [List.take_nil]
    exact h
  | cons step rest ih =>
    cases count with
    | zero => exact True.intro
    | succ count => exact ⟨h.1, ih h.2 count⟩

/-- In a closed run each command is performed on a query with a faithful memo. -/
theorem exists_faithful_of_getElem? {session : Session} {listed : List (List (String × String))}
    {steps : List (String × Query.Command)} (h : session.Sound listed)
    (hclosed : session.Closed listed steps) {i : Nat} {name : String} {command : Query.Command}
    (hi : steps[i]? = some (name, command)) :
    ∃ query : Query, query.memo.Faithful ∧
      (session.run steps).2[i]? = some (query.perform command).2 := by
  induction steps generalizing session listed i with
  | nil => cases hi
  | cons step rest ih =>
    cases i with
    | zero =>
      rw [List.getElem?_cons_zero] at hi
      cases hi
      refine ⟨session.query name, h.memos name, ?_⟩
      rw [← perform_snd]
      rfl
    | succ i => exact ih (sound_perform h hclosed.1) hclosed.2 hi

/-- In a session that loads no memo from elsewhere, every entry of every memo at every moment is
genuine, no memo has two entries for one selector, and every compilation is answered as by a query
that has compiled nothing yet. -/
theorem run_transparent {steps : List (String × Query.Command)} (h : new.Closed [] steps) :
    (∀ count name,
      (∀ entry ∈ ((new.run (steps.take count)).1.query name).memo.entries, Memo.Genuine entry) ∧
        ((new.run (steps.take count)).1.query name).memo.keys.Nodup) ∧
    (∀ (i : Nat) (name expression : String) (language : Language),
      steps[i]? = some (name, .compile expression language) →
        (new.run steps).2[i]? = some (.compiled (Query.new.compile expression language).1)) ∧
    (∀ (i : Nat) (name expression token : String),
      steps[i]? = some (name, .compileAs expression token) →
        (new.run steps).2[i]? =
          some (.compiled (Query.new.compile expression (.ofToken token)).1)) := by
  refine ⟨?_, ?_, ?_⟩
  · intro count name
    exact ⟨faithful_run sound_new (h.take count) name, OrderedMap.distinct _⟩
  · intro i name expression language hi
    obtain ⟨query, hquery, hanswer⟩ := exists_faithful_of_getElem? sound_new h hi
    rw [hanswer, ← Query.compile_fst_of_faithful hquery]
    rfl
  · intro i name expression token hi
    obtain ⟨query, hquery, hanswer⟩ := exists_faithful_of_getElem? sound_new h hi
    rw [hanswer, ← Query.compile_fst_of_faithful hquery]
    rfl

/-- A compilation that fails midway, a copy of what it left and a memo loaded from JSON. -/
theorem run_transparent_of_reload :
    let steps : List (String × Query.Command) :=
      [("q", .compile "a, b:x" .css), ("q", .list), ("q", .copyTo "r"),
        ("r", .replaceFromValue (.object [("a", .string "//a")])), ("r", .compileAs " a ,p" "css")]
    new.Closed [] steps ∧
      (new.run steps).2[4]? =
        some (.compiled (Query.new.compile " a ,p" (.ofToken "css")).1) := by
  have hclosed : new.Closed []
      [("q", .compile "a, b:x" .css), ("q", .list), ("q", .copyTo "r"),
        ("r", .replaceFromValue (.object [("a", .string "//a")])),
        ("r", .compileAs " a ,p" "css")] := by
    refine ⟨True.intro, True.intro, True.intro, ⟨[("a", "//a")], ?_, _, rfl, .refl _⟩,
      True.intro, True.intro⟩
    decide +kernel
  exact ⟨hclosed, (run_transparent hclosed).2.2 4 "r" " a ,p" "css" rfl⟩

end Session

end SelectorCompiler
