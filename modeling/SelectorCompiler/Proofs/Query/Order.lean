import SelectorCompiler.Proofs.Query.Effect

/-!
# The order of compilations

Compilations share one memo and each may leave something in it, also when it fails. Still their
order does not matter: each has the answer that it has alone, and the memos at the end hold the
same.

No compilation changes an outcome, so what one of them stores is known from the memo at the
beginning. A memo is then given, its order aside, by its outcomes and its keys, and the keys at the
end are a union over the expressions.
-/

namespace SelectorCompiler

/-! ## Outcomes and keys -/

namespace Memo

/-- A key has the value that is its outcome. -/
theorem get?_eq_some_iff_outcome {memo : Memo} {selector path : String} :
    memo.get? selector = some path ↔
      selector ∈ memo.keys ∧ memo.outcome selector = .ok path := by
  cases hget : memo.get? selector with
  | none =>
    have hkey := OrderedMap.get?_eq_none_iff.mp hget
    simp [hkey]
  | some stored =>
    have hkey : selector ∈ memo.keys := by
      by_contra hno
      rw [OrderedMap.get?_eq_none_iff.mpr hno] at hget
      cases hget
    simp [hkey, outcome_of_get?_eq_some hget]

/-- Memos with the same outcomes and the same keys hold the same. -/
theorem sameEntries_of_outcome {memo other : Memo} (hout : memo.outcome = other.outcome)
    (hkeys : ∀ selector, selector ∈ memo.keys ↔ selector ∈ other.keys) :
    memo.sameEntries other = true := by
  rw [OrderedMap.sameEntries_iff]
  intro selector
  apply Option.ext
  intro path
  rw [get?_eq_some_iff_outcome, get?_eq_some_iff_outcome, hkeys, hout]

end Memo

/-- After a list of selectors the keys are those before and the answered selectors. -/
theorem mem_keys_compileSelectors {memo : Memo} {selectors : List String} {selector : String} :
    selector ∈ (compileSelectors memo selectors).2.keys ↔
      selector ∈ memo.keys ∨ selector ∈ memo.answered selectors := by
  obtain ⟨stored, hentries, hkeys, _⟩ := exists_entries_compileSelectors memo selectors
  rw [OrderedMap.keys, hentries, List.map_append, hkeys, List.mem_append, Memo.fresh,
    List.mem_eraseDups, List.mem_filter, decide_eq_true_eq]
  change selector ∈ memo.keys ∨ _ ↔ _
  tauto

/-! ## Many compilations -/

namespace Query

/-- Compile lists of selectors one after another; the answers, and the query at the end. -/
def compileAll (query : Query) : List String → List (Except CompileError String) × Query
  | [] => ([], query)
  | expression :: rest =>
    let compiled := query.compile expression .css
    let later := compiled.2.compileAll rest
    (compiled.1 :: later.1, later.2)

/-- Compilation changes no outcome. -/
theorem outcome_compile (query : Query) (expression : String) :
    (query.compile expression .css).2.memo.outcome = query.memo.outcome :=
  outcome_compileSelectors query.memo (selectorsOf expression)

theorem outcome_compileAll (query : Query) (expressions : List String) :
    (query.compileAll expressions).2.memo.outcome = query.memo.outcome := by
  induction expressions generalizing query with
  | nil => rfl
  | cons expression rest ih => exact (ih _).trans (query.outcome_compile expression)

/-- Each expression is answered as it would be alone. -/
theorem compileAll_fst (query : Query) (expressions : List String) :
    (query.compileAll expressions).1 =
      expressions.map fun expression ↦ (query.compile expression .css).1 := by
  induction expressions generalizing query with
  | nil => rfl
  | cons expression rest ih =>
    have hlater (later : String) : ((query.compile expression .css).2.compile later .css).1 =
        (query.compile later .css).1 :=
      compile_fst_congr (query.outcome_compile expression) later .css
    change _ :: ((query.compile expression .css).2.compileAll rest).1 = _
    rw [ih, List.map_cons]
    simp only [hlater]

/-- At the end the keys are those before and the answered selectors of every expression. -/
theorem mem_keys_compileAll {query : Query} {expressions : List String} {selector : String} :
    selector ∈ (query.compileAll expressions).2.memo.keys ↔
      selector ∈ query.memo.keys ∨
        ∃ expression ∈ expressions, selector ∈ query.memo.answered (selectorsOf expression) := by
  induction expressions generalizing query with
  | nil => simp [compileAll]
  | cons expression rest ih =>
    have hanswered (other : String) :
        (query.compile expression .css).2.memo.answered (selectorsOf other) =
          query.memo.answered (selectorsOf other) := by
      rw [Memo.answered, outcome_compile, Memo.answered]
    have hfirst : selector ∈ (query.compile expression .css).2.memo.keys ↔
        selector ∈ query.memo.keys ∨ selector ∈ query.memo.answered (selectorsOf expression) :=
      mem_keys_compileSelectors
    rw [compileAll, ih, hfirst, List.exists_mem_cons_iff, or_assoc]
    simp only [hanswered]

/-- The order of compilations does not matter, whatever the memo holds at the beginning: in any
other order each expression has the same answer, and the memos at the end have the same entries,
their order aside. -/
theorem compileAll_perm (query : Query) {expressions others : List String}
    (h : expressions.Perm others) :
    (∀ (i j : Nat) (expression : String),
      expressions[i]? = some expression → others[j]? = some expression →
        ∃ answer, (query.compileAll expressions).1[i]? = some answer ∧
          (query.compileAll others).1[j]? = some answer) ∧
    (query.compileAll expressions).2.memo.sameEntries (query.compileAll others).2.memo = true := by
  constructor
  · intro i j expression hi hj
    refine ⟨(query.compile expression .css).1, ?_, ?_⟩
    · rw [compileAll_fst, List.getElem?_map, hi]
      rfl
    · rw [compileAll_fst, List.getElem?_map, hj]
      rfl
  · apply Memo.sameEntries_of_outcome
    · rw [outcome_compileAll, outcome_compileAll]
    · intro selector
      rw [mem_keys_compileAll, mem_keys_compileAll]
      simp only [h.mem_iff]

/-- A list that fails after its first selector, and one that repeats a selector of it. -/
theorem compileAll_perm_of_swap :
    ["a, ~, b", "b, a"].Perm ["b, a", "a, ~, b"] ∧
      ((new.compileAll ["a, ~, b", "b, a"]).2.memo.sameEntries
        (new.compileAll ["b, a", "a, ~, b"]).2.memo = true) ∧
      (new.compileAll ["a, ~, b", "b, a"]).2.memo.keys = ["a", "b"] ∧
      (new.compileAll ["b, a", "a, ~, b"]).2.memo.keys = ["b", "a"] := by
  have hperm : ["a, ~, b", "b, a"].Perm ["b, a", "a, ~, b"] := .swap ..
  exact ⟨hperm, (compileAll_perm new hperm).2, by decide +kernel, by decide +kernel⟩

end Query

end SelectorCompiler
