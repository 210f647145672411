import SelectorCompiler.Proofs.Query.Outcome
import SelectorCompiler.Query.Session

/-!
# The effect of one compilation

What a compilation answers and what it leaves in the memo, in closed form and for any memo: its
entries may be wrong, and its keys may be texts that no compilation stores. The answer is made of
the outcomes under the memo at the beginning. The memo keeps its entries and their order; behind
them come the selectors that were not stored, each once, up to the first that has no path.

The loop reads the memo that it writes. It is opened by `compileSelectors_cons_of_ok` and
`compileSelectors_cons_of_error`, and `Memo.fresh` follows it selector by selector.
-/

namespace SelectorCompiler

/-- A free text asks for XPath exactly when it is the word `xpath`, the case of ASCII letters
aside. -/
theorem Language.ofToken_eq (token : String) :
    ofToken token = if token.toUpper = "xpath".toUpper then .xpath else .css := by
  have hupper : token.toUpper = "xpath".toUpper ↔
      token.toList.map Char.toUpper = "XPATH".toList := by
    have hword : "xpath".toList.map Char.toUpper = "XPATH".toList := by decide
    rw [← String.toList_inj, String.toUpper, String.toUpper, String.toList_map, String.toList_map,
      hword]
  simp only [ofToken, ofName?, hupper]
  by_cases hcss : token.toList.map Char.toUpper = "CSS".toList
  · rw [if_pos hcss, hcss, if_neg (by decide)]
    rfl
  · rw [if_neg hcss]
    split <;> rfl

/-! ## What is stored -/

namespace Memo

/-- The selectors in front of the first one without a path. -/
def answered (memo : Memo) (selectors : List String) : List String :=
  selectors.takeWhile fun selector ↦ (memo.outcome selector).isOk

/-- The answered selectors that the memo does not hold, each once, in the order in which they first
occur. -/
def fresh (memo : Memo) (selectors : List String) : List String :=
  ((memo.answered selectors).filter fun selector ↦ selector ∉ memo.keys).eraseDups

variable {memo : Memo} {selector path : String}

theorem answered_cons_of_error {error : CompileError} (h : memo.outcome selector = .error error)
    (rest : List String) : memo.answered (selector :: rest) = [] := by
  rw [answered, List.takeWhile_cons_of_neg]
  rw [h]
  exact Bool.false_ne_true

theorem answered_cons_of_ok (h : memo.outcome selector = .ok path) (rest : List String) :
    memo.answered (selector :: rest) = selector :: memo.answered rest := by
  rw [answered, List.takeWhile_cons_of_pos]
  · rfl
  · rw [h]
    rfl

/-- A selector that is stored adds nothing. -/
theorem fresh_cons_of_mem (h : memo.outcome selector = .ok path) (hmem : selector ∈ memo.keys)
    (rest : List String) : memo.fresh (selector :: rest) = memo.fresh rest := by
  rw [fresh, answered_cons_of_ok h, List.filter_cons_of_neg (by simpa using hmem), fresh]

/-- A selector that is not stored is the first to be added, and later it counts as stored. -/
theorem fresh_cons_of_not_mem (h : memo.outcome selector = .ok path) (hmem : selector ∉ memo.keys)
    (rest : List String) :
    memo.fresh (selector :: rest) = selector :: fresh (memo.insert selector path) rest := by
  have hanswered : answered (memo.insert selector path) rest = memo.answered rest := by
    rw [answered, outcome_insert h, answered]
  rw [fresh, answered_cons_of_ok h, List.filter_cons_of_pos (by simpa using hmem),
    List.eraseDups_cons, List.filter_filter, fresh, hanswered, OrderedMap.keys_insert, if_neg hmem]
  congr 3
  funext other
  rw [Bool.eq_iff_iff]
  simp [and_comm]

end Memo

/-- Working through a list of selectors keeps the entries of the memo and their order. The selectors
that are new and have a path are entered behind them, up to the first without one. -/
theorem exists_entries_compileSelectors (memo : Memo) (selectors : List String) :
    ∃ stored, (compileSelectors memo selectors).2.entries = memo.entries ++ stored ∧
      stored.map Prod.fst = memo.fresh selectors ∧
      ∀ entry ∈ stored, memo.outcome entry.1 = .ok entry.2 := by
  induction selectors generalizing memo with
  | nil => exact ⟨[], (List.append_nil _).symm, rfl, by simp⟩
  | cons selector rest ih =>
    cases hout : memo.outcome selector with
    | error error =>
      refine ⟨[], ?_, ?_, by simp⟩
      · rw [compileSelectors_cons_of_error hout, List.append_nil]
      · rw [Memo.fresh, Memo.answered_cons_of_error hout]
        rfl
    | ok path =>
      obtain ⟨stored, hentries, hkeys, hpaths⟩ := ih (memo.insert selector path)
      rw [Memo.outcome_insert hout] at hpaths
      rw [compileSelectors_cons_of_ok hout, hentries]
      by_cases hmem : selector ∈ memo.keys
      · -- The selector was stored before, and with this path: else it would have another outcome.
        have hsame : memo.insert selector path = memo := by
          apply OrderedMap.insert_of_get?_eq_some
          cases hget : memo.get? selector with
          | none => exact absurd hmem (OrderedMap.get?_eq_none_iff.mp hget)
          | some found =>
            rw [Memo.outcome_of_get?_eq_some hget] at hout
            rw [Except.ok.inj hout]
        refine ⟨stored, by rw [hsame], ?_, hpaths⟩
        rw [hkeys, hsame, Memo.fresh_cons_of_mem hout hmem]
      · refine ⟨(selector, path) :: stored, ?_, ?_, ?_⟩
        · rw [OrderedMap.entries_insert_of_not_mem hmem, List.append_assoc, List.singleton_append]
        · rw [List.map_cons, hkeys, Memo.fresh_cons_of_not_mem hout hmem]
        · exact List.forall_mem_cons.mpr ⟨hout, hpaths⟩

/-! ## What is answered -/

/-- When every selector has a path, the paths are the result. -/
theorem compileSelectors_fst_of_paths {memo : Memo} {selectors paths : List String}
    (h : selectors.map memo.outcome = paths.map .ok) :
    (compileSelectors memo selectors).1 = .ok paths := by
  induction selectors generalizing memo paths with
  | nil =>
    rw [List.map_nil, eq_comm, List.map_eq_nil_iff] at h
    rw [h]
    rfl
  | cons selector rest ih =>
    cases paths with
    | nil => cases h
    | cons path later =>
      obtain ⟨hout, hrest⟩ := List.cons.inj h
      rw [← Memo.outcome_insert hout] at hrest
      rw [compileSelectors_cons_of_ok hout, ih hrest]
      rfl

/-- A result is made of the paths that the selectors have. -/
theorem map_outcome_of_compileSelectors_fst {memo : Memo} {selectors paths : List String}
    (h : (compileSelectors memo selectors).1 = .ok paths) :
    selectors.map memo.outcome = paths.map .ok := by
  induction selectors generalizing memo paths with
  | nil =>
    cases h
    rfl
  | cons selector rest ih =>
    cases hout : memo.outcome selector with
    | error error =>
      rw [compileSelectors_cons_of_error hout] at h
      cases h
    | ok path =>
      rw [compileSelectors_cons_of_ok hout] at h
      cases hlater : (compileSelectors (memo.insert selector path) rest).1 with
      | error error =>
        rw [hlater] at h
        cases h
      | ok later =>
        rw [hlater] at h
        cases h
        rw [List.map_cons, List.map_cons, hout, ← ih hlater, Memo.outcome_insert hout]

/-- The first selector without a path gives the error. -/
theorem compileSelectors_fst_of_error {memo : Memo} {before after : List String}
    {selector : String} {error : CompileError}
    (hbefore : ∀ earlier ∈ before, ∃ path, memo.outcome earlier = .ok path)
    (h : memo.outcome selector = .error error) :
    (compileSelectors memo (before ++ selector :: after)).1 = .error error := by
  induction before generalizing memo with
  | nil => rw [List.nil_append, compileSelectors_cons_of_error h]
  | cons first before ih =>
    obtain ⟨⟨path, hpath⟩, hlater⟩ := List.forall_mem_cons.mp hbefore
    rw [← Memo.outcome_insert hpath] at hlater h
    rw [List.cons_append, compileSelectors_cons_of_ok hpath, ih hlater h]
    rfl

namespace Query

/-- A list of selectors that compiles is the union of the paths that its selectors have. -/
theorem exists_paths_of_compile {query : Query} {expression text : String}
    (h : (query.compile expression .css).1 = .ok text) :
    ∃ paths, (selectorsOf expression).map query.memo.outcome = paths.map .ok ∧
      text = "|".intercalate paths := by
  cases hpaths : (compileSelectors query.memo (selectorsOf expression)).1 with
  | error error =>
    simp only [compile, hpaths] at h
    cases h
  | ok paths =>
    simp only [compile, hpaths] at h
    exact ⟨paths, map_outcome_of_compileSelectors_fst hpaths, (Except.ok.inj h).symm⟩

end Query

end SelectorCompiler
