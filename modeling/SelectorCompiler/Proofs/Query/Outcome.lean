import SelectorCompiler.Proofs.OrderedMap
import SelectorCompiler.Query.Basic

/-!
# What a memo answers

The outcome of a selector under a memo is the stored path, or the result of compiling the selector
when nothing is stored. Working through a list of selectors reads the memo that it writes, but
what it writes never changes an outcome. So the result of the whole list is made of outcomes under
the memo at the beginning, and the outcomes afterwards are the same as before.
-/

namespace SelectorCompiler

namespace Memo

/-- The path of a selector under a memo: the stored one, or else the compiled one. -/
def outcome (memo : Memo) (selector : String) : Except CompileError String :=
  match memo.get? selector with
  | some path => .ok path
  | none => compileSelector selector .descendant

/-- A stored selector has the stored path. -/
theorem outcome_of_get?_eq_some {memo : Memo} {selector path : String}
    (h : memo.get? selector = some path) : memo.outcome selector = .ok path := by
  rw [outcome, h]

/-- A selector that is not stored has the compiled path. -/
theorem outcome_of_get?_eq_none {memo : Memo} {selector : String}
    (h : memo.get? selector = none) :
    memo.outcome selector = compileSelector selector .descendant := by
  rw [outcome, h]

/-- Under the empty memo every selector is compiled. -/
@[simp]
theorem outcome_empty (selector : String) :
    outcome OrderedMap.empty selector = compileSelector selector .descendant := rfl

/-- Storing the outcome of a selector changes no outcome. -/
theorem outcome_insert {memo : Memo} {selector path : String}
    (h : memo.outcome selector = .ok path) :
    outcome (memo.insert selector path) = memo.outcome := by
  funext other
  by_cases ho : other = selector
  · subst ho
    rw [h, outcome, OrderedMap.get?_insert, if_pos rfl]
  · rw [outcome, OrderedMap.get?_insert, if_neg ho, outcome]

end Memo

/-! ## Working through a list -/

/-- A selector without a path ends the work. -/
theorem compileSelectors_cons_of_error {memo : Memo} {selector : String} {error : CompileError}
    (h : memo.outcome selector = .error error) (rest : List String) :
    compileSelectors memo (selector :: rest) = (.error error, memo) := by
  cases hget : memo.get? selector with
  | some path =>
    rw [Memo.outcome_of_get?_eq_some hget] at h
    cases h
  | none =>
    rw [Memo.outcome_of_get?_eq_none hget] at h
    simp only [compileSelectors, hget, h]

/-- After a selector with a path the work goes on with that path stored, which changes nothing when
it was stored before. -/
theorem compileSelectors_cons_of_ok {memo : Memo} {selector path : String}
    (h : memo.outcome selector = .ok path) (rest : List String) :
    compileSelectors memo (selector :: rest) =
      ((compileSelectors (memo.insert selector path) rest).1.map (path :: ·),
        (compileSelectors (memo.insert selector path) rest).2) := by
  cases hget : memo.get? selector with
  | some stored =>
    rw [Memo.outcome_of_get?_eq_some hget] at h
    cases h
    simp only [compileSelectors, hget, OrderedMap.insert_of_get?_eq_some hget]
  | none =>
    rw [Memo.outcome_of_get?_eq_none hget] at h
    simp only [compileSelectors, hget, h]

private theorem mapM_outcome_cons (memo : Memo) (selector : String) (rest : List String) :
    (selector :: rest).mapM memo.outcome =
      (memo.outcome selector).bind fun path ↦ (rest.mapM memo.outcome).map (path :: ·) := by
  rw [List.mapM_cons]
  cases memo.outcome selector with
  | error error => rfl
  | ok path => cases rest.mapM memo.outcome <;> rfl

/-- The result of a list of selectors is made of their outcomes, up to the first error. -/
theorem compileSelectors_fst (memo : Memo) (selectors : List String) :
    (compileSelectors memo selectors).1 = selectors.mapM memo.outcome := by
  induction selectors generalizing memo with
  | nil => rfl
  | cons selector rest ih =>
    rw [mapM_outcome_cons]
    cases hout : memo.outcome selector with
    | error error =>
      rw [compileSelectors_cons_of_error hout]
      rfl
    | ok path =>
      rw [compileSelectors_cons_of_ok hout, ih, Memo.outcome_insert hout]
      rfl

/-- Working through a list of selectors changes no outcome. -/
theorem outcome_compileSelectors (memo : Memo) (selectors : List String) :
    (compileSelectors memo selectors).2.outcome = memo.outcome := by
  induction selectors generalizing memo with
  | nil => rfl
  | cons selector rest ih =>
    cases hout : memo.outcome selector with
    | error error => rw [compileSelectors_cons_of_error hout]
    | ok path => rw [compileSelectors_cons_of_ok hout, ih, Memo.outcome_insert hout]

/-- An entry found after a list of selectors was there before, or belongs to a selector of the list
and is its compiled path. -/
theorem mem_entries_compileSelectors {memo : Memo} {selectors : List String}
    {entry : String × String} (h : entry ∈ (compileSelectors memo selectors).2.entries) :
    entry ∈ memo.entries ∨
      entry.1 ∈ selectors ∧ compileSelector entry.1 .descendant = .ok entry.2 := by
  induction selectors generalizing memo with
  | nil => exact .inl h
  | cons selector rest ih =>
    cases hout : memo.outcome selector with
    | error error =>
      rw [compileSelectors_cons_of_error hout] at h
      exact .inl h
    | ok path =>
      rw [compileSelectors_cons_of_ok hout] at h
      rcases ih h with hmem | ⟨hrest, hpath⟩
      · rcases OrderedMap.mem_entries_insert.mp hmem with rfl | ⟨hold, _⟩
        · cases hget : memo.get? selector with
          | some stored =>
            rw [Memo.outcome_of_get?_eq_some hget] at hout
            cases hout
            exact .inl (OrderedMap.get?_eq_some_iff.mp hget)
          | none =>
            rw [Memo.outcome_of_get?_eq_none hget] at hout
            exact .inr ⟨List.mem_cons_self, hout⟩
        · exact .inl hold
      · exact .inr ⟨List.mem_cons_of_mem _ hrest, hpath⟩

namespace Query

/-- Compiling a list of selectors joins their outcomes. -/
theorem compile_css_fst (query : Query) (expression : String) :
    (query.compile expression .css).1 =
      ((selectorsOf expression).mapM query.memo.outcome).map (String.intercalate "|") := by
  simp only [compile, compileSelectors_fst]

/-- Memos with the same outcomes give the same results. -/
theorem compile_fst_congr {query other : Query} (h : query.memo.outcome = other.memo.outcome)
    (expression : String) (language : Language) :
    (query.compile expression language).1 = (other.compile expression language).1 := by
  cases language with
  | xpath => rfl
  | css => rw [compile_css_fst, compile_css_fst, h]

end Query

end SelectorCompiler
