/-!
# Delimited text

Two ways of cutting a text at a character: everything before its first occurrence, and all the
pieces between its occurrences.
-/

namespace SelectorCompiler.Text

/-- What stands before the first `close`, and what follows it; nothing when `close` is absent. -/
def upTo? (close : Char) (text : List Char) : Option (List Char × List Char) :=
  match text.dropWhile (· != close) with
  | [] => none
  | _ :: rest => some (text.takeWhile (· != close), rest)

/-- The pieces of a string between the occurrences of `separator`: one more than there are
separators, so at least one. -/
def pieces (separator : Char) (text : String) : List String :=
  (text.toList.splitOn separator).map String.ofList

private theorem dropWhile_ne_eq_cons {close c : Char} {text rest : List Char}
    (h : text.dropWhile (· != close) = c :: rest) : c = close := by
  have := List.head_dropWhile_not (· != close) (l := text) (by simp [h])
  simpa [h] using this

/-- Cutting succeeds exactly when the text is a body free of `close`, `close` itself, and the
rest. -/
theorem upTo?_eq_some_iff {close : Char} {text body rest : List Char} :
    upTo? close text = some (body, rest) ↔ text = body ++ close :: rest ∧ close ∉ body := by
  constructor
  · intro h
    unfold upTo? at h
    split at h
    · simp at h
    · next c tail hdrop =>
      simp only [Option.some.injEq, Prod.mk.injEq] at h
      obtain ⟨rfl, rfl⟩ := h
      have hc := dropWhile_ne_eq_cons hdrop
      subst hc
      refine ⟨?_, ?_⟩
      · rw [← hdrop, List.takeWhile_append_dropWhile]
      · intro hmem
        have := List.all_eq_true.mp List.all_takeWhile c hmem
        simp at this
  · rintro ⟨rfl, hbody⟩
    have hall : ∀ c ∈ body, (c != close) = true := by
      intro c hc
      simp only [bne_iff_ne, ne_eq]
      rintro rfl
      exact hbody hc
    simp [upTo?, List.dropWhile_append_of_pos hall, List.takeWhile_append_of_pos hall]

/-- A text without a mark ends at the first mark. -/
theorem append_inj_of_mark {mark : Char} {front other rest later : List Char}
    (hfront : mark ∉ front) (hother : mark ∉ other)
    (h : front ++ mark :: rest = other ++ mark :: later) : front = other ∧ rest = later := by
  have hfirst : upTo? mark (front ++ mark :: rest) = some (front, rest) :=
    upTo?_eq_some_iff.mpr ⟨rfl, hfront⟩
  have hsecond : upTo? mark (front ++ mark :: rest) = some (other, later) :=
    upTo?_eq_some_iff.mpr ⟨h, hother⟩
  exact Prod.mk.inj (Option.some.inj (hfirst.symm.trans hsecond))

/-- Cutting fails exactly when `close` does not occur. -/
theorem upTo?_eq_none_iff {close : Char} {text : List Char} :
    upTo? close text = none ↔ close ∉ text := by
  unfold upTo?
  split
  · next h =>
    simp only [true_iff]
    intro hmem
    have hall : text.takeWhile (· != close) = text := by
      simpa [h] using List.takeWhile_append_dropWhile (p := (· != close)) (l := text)
    rw [← hall] at hmem
    have := List.all_eq_true.mp List.all_takeWhile close hmem
    simp at this
  · next c tail h =>
    have hc := dropWhile_ne_eq_cons h
    subst hc
    simp only [reduceCtorEq, false_iff, Classical.not_not]
    exact (List.dropWhile_suffix _).subset (by rw [h]; simp)

/-- What follows the first `close` is shorter than the text. -/
theorem length_lt_of_upTo? {close : Char} {text body rest : List Char}
    (h : upTo? close text = some (body, rest)) : rest.length < text.length := by
  obtain ⟨rfl, _⟩ := upTo?_eq_some_iff.mp h
  simp only [List.length_append, List.length_cons]
  omega

end SelectorCompiler.Text
