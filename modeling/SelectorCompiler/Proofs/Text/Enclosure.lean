import SelectorCompiler.Text.Delimited

/-!
# Enclosed text

Some characters open a text that another character closes, or the same one again: brackets,
parentheses, quotation marks. Inside of such a text nothing else opens, so at every place it is
enough to know which character is awaited. A mark counts when none is.

`HasMarks` says how often a mark counts in a text at whose end nothing is open. The counts of texts
in a row add up, and an enclosed text adds nothing.
-/

namespace SelectorCompiler.Text

/-! ## What is open -/

/-- The character that is awaited after one more character: `closer?` says what closes the text that
a character opens. -/
def awaited (closer? : Char → Option Char) : Option Char → Char → Option Char
  | none, c => closer? c
  | some close, c => if c = close then none else some close

/-- The pieces of a text between the marks that are not enclosed, with `close` awaited at the
beginning. -/
def cutOutside (closer? : Char → Option Char) (mark : Char) (close : Option Char) :
    List Char → List (List Char)
  | [] => [[]]
  | c :: text =>
    let later := cutOutside closer? mark (awaited closer? close c) text
    if close = none ∧ c = mark then [] :: later else later.modifyHead (c :: ·)

/-- The number of marks that are not enclosed. -/
def countOutside (closer? : Char → Option Char) (mark : Char) (close : Option Char) :
    List Char → Nat
  | [] => 0
  | c :: text =>
    (if close = none ∧ c = mark then 1 else 0) +
      countOutside closer? mark (awaited closer? close c) text

variable {closer? : Char → Option Char} {mark : Char} {close : Option Char}
  {text front rest : List Char}

/-- Where nothing opens, nothing is awaited. -/
theorem foldl_awaited_none (h : ∀ c ∈ text, closer? c = none) :
    text.foldl (awaited closer?) none = none := by
  induction text with
  | nil => rfl
  | cons c text ih =>
    obtain ⟨hc, htext⟩ := List.forall_mem_cons.mp h
    rw [List.foldl_cons, awaited, hc, ih htext]

/-- What is awaited stays so until it comes. -/
theorem foldl_awaited_some {c : Char} (h : c ∉ text) :
    text.foldl (awaited closer?) (some c) = some c := by
  induction text with
  | nil => rfl
  | cons d text ih =>
    rw [List.foldl_cons, awaited, if_neg (List.ne_of_not_mem_cons h).symm,
      ih (List.not_mem_of_not_mem_cons h)]

/-! ## Pieces -/

theorem cutOutside_ne_nil (close : Option Char) (text : List Char) :
    cutOutside closer? mark close text ≠ [] := by
  induction text generalizing close with
  | nil => exact List.cons_ne_nil _ _
  | cons c text ih =>
    rw [cutOutside]
    split
    · exact List.cons_ne_nil _ _
    · simpa [List.modifyHead_eq_nil_iff] using ih (awaited closer? close c)

/-- There is one piece more than there are marks. -/
theorem length_cutOutside (close : Option Char) (text : List Char) :
    (cutOutside closer? mark close text).length = countOutside closer? mark close text + 1 := by
  induction text generalizing close with
  | nil => rfl
  | cons c text ih =>
    rw [cutOutside, countOutside]
    split
    · rw [List.length_cons, ih]
      omega
    · rw [List.length_modifyHead, ih]
      omega

/-- Without marks the text is one piece. -/
theorem cutOutside_of_countOutside_eq_zero (h : countOutside closer? mark close text = 0) :
    cutOutside closer? mark close text = [text] := by
  induction text generalizing close with
  | nil => rfl
  | cons c text ih =>
    rw [countOutside] at h
    split at h
    · omega
    · next hmark =>
      rw [cutOutside, if_neg hmark, ih (by omega)]
      rfl

/-- A mark behind a text at whose end nothing is open ends the last piece of that text. -/
theorem cutOutside_append (hmark : closer? mark = none)
    (h : front.foldl (awaited closer?) close = none) (rest : List Char) :
    cutOutside closer? mark close (front ++ mark :: rest) =
      cutOutside closer? mark close front ++ cutOutside closer? mark none rest := by
  induction front generalizing close with
  | nil =>
    cases h
    simp [cutOutside, awaited, hmark]
  | cons c front ih =>
    rw [List.cons_append, cutOutside, cutOutside, ih h]
    split
    · rfl
    · obtain ⟨piece, pieces, hpieces⟩ :=
        List.exists_cons_of_ne_nil (cutOutside_ne_nil (awaited closer? close c) front)
      rw [hpieces]
      rfl

/-! ## Counting -/

theorem countOutside_append (close : Option Char) (front rest : List Char) :
    countOutside closer? mark close (front ++ rest) =
      countOutside closer? mark close front +
        countOutside closer? mark (front.foldl (awaited closer?) close) rest := by
  induction front generalizing close with
  | nil => exact (Nat.zero_add _).symm
  | cons c front ih =>
    rw [List.cons_append, countOutside, countOutside, ih, List.foldl_cons]
    omega

/-- Outside of enclosed texts the mark occurs `count` times, and nothing is open at the end. -/
structure HasMarks (closer? : Char → Option Char) (mark : Char) (text : List Char) (count : Nat) :
    Prop where
  closed : text.foldl (awaited closer?) none = none
  marks : countOutside closer? mark none text = count

instance (closer? : Char → Option Char) (mark : Char) (text : List Char) (count : Nat) :
    Decidable (HasMarks closer? mark text count) :=
  decidable_of_iff
    (text.foldl (awaited closer?) none = none ∧ countOutside closer? mark none text = count)
    ⟨fun h ↦ ⟨h.1, h.2⟩, fun h ↦ ⟨h.closed, h.marks⟩⟩

namespace HasMarks

variable {first second : Nat}

theorem append (hfront : HasMarks closer? mark front first)
    (hrest : HasMarks closer? mark rest second) :
    HasMarks closer? mark (front ++ rest) (first + second) where
  closed := by rw [List.foldl_append, hfront.closed, hrest.closed]
  marks := by rw [countOutside_append, hfront.closed, hfront.marks, hrest.marks]

/-- Where nothing opens, every mark counts. -/
theorem of_unopened (h : ∀ c ∈ text, closer? c = none) :
    HasMarks closer? mark text (text.count mark) := by
  refine ⟨foldl_awaited_none h, ?_⟩
  induction text with
  | nil => rfl
  | cons c text ih =>
    obtain ⟨hc, htext⟩ := List.forall_mem_cons.mp h
    rw [countOutside, awaited, hc, ih htext, List.count_cons]
    simp [Nat.add_comm]

/-- An enclosed text hides its marks. -/
theorem of_enclosed {opener closer : Char} (hopen : closer? opener = some closer)
    (hmark : opener ≠ mark) (h : closer ∉ text) :
    HasMarks closer? mark (opener :: (text ++ [closer])) 0 := by
  have hinside : countOutside closer? mark (some closer) text = 0 := by
    induction text with
    | nil => rfl
    | cons c text ih =>
      have hc : awaited closer? (some closer) c = some closer :=
        if_neg (List.ne_of_not_mem_cons h).symm
      rw [countOutside, hc, ih (List.not_mem_of_not_mem_cons h), if_neg (by simp)]
  have hawaited : awaited closer? none opener = some closer := hopen
  have hclose : awaited closer? (some closer) closer = none := if_pos rfl
  constructor
  · simp [hawaited, foldl_awaited_some h, hclose]
  · simp [countOutside, countOutside_append, hawaited, hmark, hinside, foldl_awaited_some h]

/-- A text in which no mark counts has every mark inside of an enclosed text. -/
theorem foldl_awaited_ne_none (h : HasMarks closer? mark (front ++ mark :: rest) 0) :
    front.foldl (awaited closer?) none ≠ none := by
  intro hnone
  have hcount := h.marks
  rw [countOutside_append, hnone, countOutside, if_pos ⟨rfl, rfl⟩] at hcount
  omega

end HasMarks

end SelectorCompiler.Text
