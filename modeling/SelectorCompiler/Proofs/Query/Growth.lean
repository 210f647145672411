import SelectorCompiler.Proofs.Query.Order

/-!
# What a query learns

A query that compiles expressions one after another keeps every entry of its memo and adds the
selectors that it compiles on the way. Each expression adds what it would add alone, so the memo at
the end is the union of the memos that the expressions leave one by one, each from the same
beginning.
-/

namespace SelectorCompiler.Query

/-- The query after it has compiled expressions one after another, those without a path among
them. -/
def learn (query : Query) (language : Language) (expressions : List String) : Query :=
  expressions.foldl (fun query expression ↦ (query.compile expression language).2) query

/-- An expression that is already a path teaches nothing. -/
theorem learn_xpath (query : Query) (expressions : List String) :
    query.learn .xpath expressions = query := by
  induction expressions with
  | nil => rfl
  | cons expression rest ih => exact ih

theorem learn_css (query : Query) (expressions : List String) :
    query.learn .css expressions = (query.compileAll expressions).2 := by
  induction expressions generalizing query with
  | nil => rfl
  | cons expression rest ih => exact ih _

/-- What is learned changes no outcome. -/
theorem outcome_learn (query : Query) (language : Language) (expressions : List String) :
    (query.learn language expressions).memo.outcome = query.memo.outcome := by
  cases language with
  | xpath => rw [learn_xpath]
  | css => rw [learn_css, outcome_compileAll]

/-- The expression has no path. -/
def fails (query : Query) (language : Language) (expression : String) : Bool :=
  match (query.compile expression language).1 with
  | .ok _ => false
  | .error _ => true

theorem fails_iff {query : Query} {language : Language} {expression : String} :
    query.fails language expression = true ↔
      ∃ error, (query.compile expression language).1 = .error error := by
  unfold fails
  cases (query.compile expression language).1 <;> simp

/-- Whether an expression fails depends on the memo through its outcomes only. -/
theorem fails_congr {query other : Query} (h : query.memo.outcome = other.memo.outcome)
    (language : Language) : query.fails language = other.fails language := by
  funext expression
  rw [fails, fails, compile_fst_congr h]

/-- No entry is lost, and none changes its place. -/
theorem entries_prefix_learn (query : Query) (language : Language) (expressions : List String) :
    query.memo.entries <+: (query.learn language expressions).memo.entries := by
  induction expressions generalizing query with
  | nil => exact List.prefix_rfl
  | cons expression rest ih =>
    refine List.IsPrefix.trans ?_ (ih _)
    cases language with
    | xpath => exact List.prefix_rfl
    | css =>
      obtain ⟨stored, hentries, -⟩ :=
        exists_entries_compileSelectors query.memo (selectorsOf expression)
      exact ⟨stored, hentries.symm⟩

/-- The memo at the end holds what one of the expressions leaves there alone. -/
theorem get?_learn_iff (query : Query) (language : Language) {expressions : List String}
    (hsome : expressions ≠ []) {selector path : String} :
    (query.learn language expressions).memo.get? selector = some path ↔
      ∃ expression ∈ expressions,
        (query.learn language [expression]).memo.get? selector = some path := by
  cases language with
  | xpath => simp [learn_xpath, List.exists_mem_of_ne_nil expressions hsome]
  | css =>
    obtain ⟨first, hfirst⟩ := List.exists_mem_of_ne_nil expressions hsome
    simp only [learn_css, Memo.get?_eq_some_iff_outcome, outcome_compileAll, mem_keys_compileAll,
      List.mem_singleton, exists_eq_left]
    constructor
    · rintro ⟨hold | ⟨expression, hmem, hanswered⟩, houtcome⟩
      · exact ⟨first, hfirst, .inl hold, houtcome⟩
      · exact ⟨expression, hmem, .inr hanswered, houtcome⟩
    · rintro ⟨expression, hmem, hold | hanswered, houtcome⟩
      · exact ⟨.inl hold, houtcome⟩
      · exact ⟨.inr ⟨expression, hmem, hanswered⟩, houtcome⟩

end SelectorCompiler.Query
