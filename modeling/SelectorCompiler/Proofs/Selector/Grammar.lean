import SelectorCompiler.Proofs.Selector.Parts
import SelectorCompiler.Proofs.Selector.Reading

/-!
# The grammar of selectors

A selector is a sequence of atoms: a tag character, an id, a run of classes, a bracketed clause, a
pseudo-class, a white space character or `>`. The grammar allows any cutting of the text into atoms,
while reading takes the longest run for each part and never goes back.

Two facts make both agree. What is read is made of atoms, in `cuts_text_read`; and what reading
leaves of a text that can be cut can be cut again, in `Cuts.rest_read`, so that no greedy choice
loses a way to cut the text.
-/

namespace SelectorCompiler

open Text

/-! ## Atoms -/

/-- An ASCII letter, an ASCII digit or one of `more`. -/
def WordChar (more : List Char) (c : Char) : Prop :=
  'A' ≤ c ∧ c ≤ 'Z' ∨ 'a' ≤ c ∧ c ≤ 'z' ∨ '0' ≤ c ∧ c ≤ '9' ∨ c ∈ more

/-- The smallest pieces of a selector. -/
inductive Atom : List Char → Prop where
  /-- A character of a tag. -/
  | tag {c : Char} (h : WordChar ['_', '*', '|', '-'] c) : Atom [c]
  /-- An id. -/
  | id {run : List Char} (hne : run ≠ []) (h : ∀ c ∈ run, WordChar ['_', '|', '-'] c) :
    Atom ('#' :: run)
  /-- A run of classes. -/
  | classes {run : List Char} (hne : run ≠ []) (h : ∀ c ∈ run, WordChar ['_', '|', '.', '-'] c) :
    Atom ('.' :: run)
  /-- A clause. -/
  | clause {body : List Char} (h : ']' ∉ body) : Atom ('[' :: (body ++ [']']))
  /-- A pseudo-class without an argument. -/
  | pseudo {name : List Char} (h : ∀ c ∈ name, WordChar ['_', '-'] c) : Atom (':' :: name)
  /-- A pseudo-class with an argument. -/
  | call {name body : List Char} (h : ∀ c ∈ name, WordChar ['_', '-'] c) (hne : body ≠ [])
    (hbody : ')' ∉ body) : Atom (':' :: (name ++ '(' :: (body ++ [')'])))
  /-- White space. -/
  | blank {c : Char} (h : isWhiteSpace c = true) : Atom [c]
  /-- The mark of a child. -/
  | child : Atom ['>']

/-- The text is a concatenation of atoms. -/
def Cuts (text : List Char) : Prop :=
  ∃ atoms : List (List Char), (∀ atom ∈ atoms, Atom atom) ∧ atoms.flatten = text

private theorem isAlphanum_iff {c : Char} :
    c.isAlphanum = true ↔ 'A' ≤ c ∧ c ≤ 'Z' ∨ 'a' ≤ c ∧ c ≤ 'z' ∨ '0' ≤ c ∧ c ≤ '9' := by
  change (decide ('A' ≤ c ∧ c ≤ 'Z') || (decide ('a' ≤ c) && decide (c ≤ 'z')) ||
    (decide ('0' ≤ c) && decide (c ≤ '9'))) = true ↔ _
  simp only [Bool.or_eq_true, Bool.and_eq_true, decide_eq_true_eq, or_assoc]

theorem isTagChar_iff {c : Char} : isTagChar c = true ↔ WordChar ['_', '*', '|', '-'] c := by
  simp [isTagChar, WordChar, isAlphanum_iff, or_assoc]

theorem isIdChar_iff {c : Char} : isIdChar c = true ↔ WordChar ['_', '|', '-'] c := by
  simp [isIdChar, WordChar, isAlphanum_iff, or_assoc]

theorem isClassChar_iff {c : Char} : isClassChar c = true ↔ WordChar ['_', '|', '.', '-'] c := by
  simp [isClassChar, isIdChar, WordChar, isAlphanum_iff, or_assoc, or_comm, or_left_comm]

theorem isPseudoChar_iff {c : Char} : isPseudoChar c = true ↔ WordChar ['_', '-'] c := by
  simp [isPseudoChar, WordChar, isAlphanum_iff, or_assoc]

/-! ## Texts made of atoms -/

namespace Cuts

theorem nil : Cuts [] := ⟨[], by simp, rfl⟩

theorem cons {atom text : List Char} (ha : Atom atom) (h : Cuts text) : Cuts (atom ++ text) := by
  obtain ⟨atoms, hatoms, rfl⟩ := h
  refine ⟨atom :: atoms, ?_, rfl⟩
  intro other ho
  rcases List.mem_cons.mp ho with rfl | ho
  · exact ha
  · exact hatoms other ho

theorem of_atom {atom : List Char} (h : Atom atom) : Cuts atom := by
  simpa using cons h nil

theorem append {front rest : List Char} (hf : Cuts front) (hr : Cuts rest) :
    Cuts (front ++ rest) := by
  obtain ⟨atoms, hatoms, rfl⟩ := hf
  induction atoms with
  | nil => exact hr
  | cons atom atoms ih =>
    rw [List.flatten_cons, List.append_assoc]
    exact cons (hatoms atom (by simp)) (ih fun other ho ↦ hatoms other (by simp [ho]))

/-- Characters that are atoms by themselves make up a text. -/
theorem of_chars {text : List Char} (h : ∀ c ∈ text, Atom [c]) : Cuts text := by
  refine ⟨text.map ([·]), ?_, by rw [← List.flatMap_def, List.flatMap_singleton']⟩
  intro atom ha
  obtain ⟨c, hc, rfl⟩ := List.mem_map.mp ha
  exact h c hc

theorem flatMap {α : Type} {items : List α} {piece : α → List Char}
    (h : ∀ item ∈ items, Cuts (piece item)) : Cuts (items.flatMap piece) := by
  induction items with
  | nil => exact nil
  | cons item items ih =>
    rw [List.flatMap_cons]
    exact append (h item (by simp)) (ih fun other ho ↦ h other (by simp [ho]))

/-- A text that is not empty begins with an atom. -/
theorem exists_atom {text : List Char} (h : Cuts text) (hne : text ≠ []) :
    ∃ atom rest, Atom atom ∧ text = atom ++ rest ∧ Cuts rest := by
  obtain ⟨atoms, hatoms, rfl⟩ := h
  cases atoms with
  | nil => exact absurd rfl hne
  | cons atom atoms =>
    exact ⟨atom, atoms.flatten, hatoms atom (by simp), rfl,
      atoms, fun other ho ↦ hatoms other (by simp [ho]), rfl⟩

end Cuts

/-! ## Reading takes atoms -/

/-- The parts that are read are made of atoms. -/
theorem cuts_text_read (text : List Char) : Cuts (Parts.read text).1.text := by
  have valid := Parts.valid_read text
  generalize (Parts.read text).1 = parts at valid
  unfold Parts.text
  refine .append (.append (.append (.append (.append (.append ?_ ?_) ?_) ?_) ?_) ?_) ?_
  · exact .of_chars fun c hc ↦ .tag (isTagChar_iff.mp (valid.tag c hc))
  · cases hid : parts.id with
    | none => exact .nil
    | some run =>
      obtain ⟨hne, hrun⟩ := valid.id run hid
      exact .of_atom (.id hne fun c hc ↦ isIdChar_iff.mp (hrun c hc))
  · cases hclasses : parts.classes with
    | none => exact .nil
    | some run =>
      obtain ⟨hne, hrun⟩ := valid.classes run hclasses
      exact .of_atom (.classes hne fun c hc ↦ isClassChar_iff.mp (hrun c hc))
  · exact .flatMap fun body hbody ↦ .of_atom (.clause (valid.clauses body hbody))
  · cases hpseudo : parts.pseudo with
    | none => exact .nil
    | some pseudo =>
      obtain ⟨name, argument⟩ := pseudo
      have hname c hc := isPseudoChar_iff.mp (valid.name name argument hpseudo c hc)
      cases argument with
      | none =>
        rw [pseudoText, argumentText, List.append_nil]
        exact .of_atom (.pseudo hname)
      | some body =>
        obtain ⟨hne, hbody⟩ := valid.argument name body hpseudo
        exact .of_atom (.call hname hne hbody)
  · exact .of_chars fun c hc ↦ .blank (valid.blank c hc)
  · cases parts.child with
    | false => exact .nil
    | true => exact .of_atom .child

/-- Where reading takes nothing, no atom begins. -/
theorem ReadsNothing.not_atom {text atom : List Char} (h : ReadsNothing text) (ha : Atom atom) :
    ¬atom <+: text := by
  rintro ⟨rest, rfl⟩
  cases ha with
  | @tag c hc => simpa [isTagChar_iff.mpr hc] using h.tag
  | @id run hne hrun =>
    obtain ⟨c, run, rfl⟩ := List.exists_cons_of_ne_nil hne
    exact readMarked_fst_ne_none (isIdChar_iff.mpr (hrun c (by simp))) _ h.id
  | @classes run hne hrun =>
    obtain ⟨c, run, rfl⟩ := List.exists_cons_of_ne_nil hne
    exact readMarked_fst_ne_none (isClassChar_iff.mpr (hrun c (by simp))) _ h.classes
  | @clause body hbody =>
    have hread := h.clauses
    rw [List.cons_append, List.append_assoc, List.singleton_append,
      readClauses_clause hbody] at hread
    cases hread
  | pseudo hname => cases h.pseudo
  | call hname hne hbody => cases h.pseudo
  | @blank c hc => simpa [hc] using h.blank
  | child => cases h.child

/-! ## Greedy reading loses no way to cut -/

/-- The ways in which a text that can be cut begins with a character and goes on with `tail`: a mark
is followed by what it marks, and any other character stands for itself. -/
def Begins : Char → List Char → Prop
  | '#', tail => ∃ run rest, (∀ c ∈ run, isIdChar c = true) ∧ tail = run ++ rest ∧ Cuts rest
  | '.', tail => ∃ run rest, (∀ c ∈ run, isClassChar c = true) ∧ tail = run ++ rest ∧ Cuts rest
  | '[', tail => ∃ body rest, ']' ∉ body ∧ tail = body ++ ']' :: rest ∧ Cuts rest
  | ':', tail =>
    ∃ name rest, (∀ c ∈ name, isPseudoChar c = true) ∧ tail = name ++ rest ∧
      (Cuts rest ∨ ∃ body later, body ≠ [] ∧ ')' ∉ body ∧ rest = '(' :: (body ++ ')' :: later) ∧
        Cuts later)
  | c, tail => (isTagChar c = true ∨ isWhiteSpace c = true ∨ c = '>') ∧ Cuts tail

namespace Cuts

private theorem single_ne_mark {c : Char}
    (h : isTagChar c = true ∨ isWhiteSpace c = true ∨ c = '>') :
    c ≠ '#' ∧ c ≠ '.' ∧ c ≠ '[' ∧ c ≠ ':' := by
  refine ⟨?_, ?_, ?_, ?_⟩ <;> rintro rfl <;> revert h <;> decide

private theorem begins_single {c : Char} {tail : List Char}
    (h : isTagChar c = true ∨ isWhiteSpace c = true ∨ c = '>') : Begins c tail ↔ Cuts tail := by
  obtain ⟨hid, hclasses, hclause, hpseudo⟩ := single_ne_mark h
  unfold Begins
  split
  · exact absurd rfl hid
  · exact absurd rfl hclasses
  · exact absurd rfl hclause
  · exact absurd rfl hpseudo
  · exact and_iff_right h

/-- What a text that can be cut begins with. -/
theorem begins {c : Char} {tail : List Char} (h : Cuts (c :: tail)) : Begins c tail := by
  obtain ⟨atom, rest, ha, htext, hrest⟩ := h.exists_atom (by simp)
  cases ha with
  | tag hc =>
    obtain ⟨rfl, rfl⟩ := List.cons.inj htext
    exact (begins_single (.inl (isTagChar_iff.mpr hc))).mpr hrest
  | blank hc =>
    obtain ⟨rfl, rfl⟩ := List.cons.inj htext
    exact (begins_single (.inr (.inl hc))).mpr hrest
  | child =>
    obtain ⟨rfl, rfl⟩ := List.cons.inj htext
    exact (begins_single (.inr (.inr rfl))).mpr hrest
  | id hne hrun =>
    obtain ⟨rfl, rfl⟩ := List.cons.inj htext
    exact ⟨_, rest, fun c hc ↦ isIdChar_iff.mpr (hrun c hc), rfl, hrest⟩
  | classes hne hrun =>
    obtain ⟨rfl, rfl⟩ := List.cons.inj htext
    exact ⟨_, rest, fun c hc ↦ isClassChar_iff.mpr (hrun c hc), rfl, hrest⟩
  | clause hbody =>
    obtain ⟨rfl, rfl⟩ := List.cons.inj htext
    exact ⟨_, rest, hbody, by simp, hrest⟩
  | pseudo hname =>
    obtain ⟨rfl, rfl⟩ := List.cons.inj htext
    exact ⟨_, rest, fun c hc ↦ isPseudoChar_iff.mpr (hname c hc), rfl, .inl hrest⟩
  | @call name body hname hne hbody =>
    obtain ⟨rfl, rfl⟩ := List.cons.inj htext
    exact ⟨name, '(' :: (body ++ ')' :: rest), fun c hc ↦ isPseudoChar_iff.mpr (hname c hc),
      by simp, .inr ⟨body, rest, hne, hbody, rfl, hrest⟩⟩

/-- A character that is an atom by itself can be taken off. -/
theorem tail {c : Char} {rest : List Char} (h : Cuts (c :: rest))
    (hc : isTagChar c = true ∨ isWhiteSpace c = true ∨ c = '>') : Cuts rest :=
  (begins_single hc).mp h.begins

/-- A run of such characters can be taken off. -/
theorem dropWhile {text : List Char} (h : Cuts text) {fits : Char → Bool}
    (hfits : ∀ c, fits c = true → isTagChar c = true ∨ isWhiteSpace c = true ∨ c = '>') :
    Cuts (text.dropWhile fits) := by
  induction text with
  | nil => exact h
  | cons c rest ih =>
    by_cases hc : fits c = true
    · rw [List.dropWhile_cons_of_pos hc]
      exact ih (h.tail (hfits c hc))
    · rw [List.dropWhile_cons_of_neg hc]
      exact h

/-- A run of class characters can be taken off, although a dot is no atom: the classes it begins
end where the run ends, or before. -/
theorem dropWhile_isClassChar {text : List Char} (h : Cuts text) :
    Cuts (text.dropWhile isClassChar) := by
  have all (n : Nat) : ∀ text : List Char, text.length = n → Cuts text →
      Cuts (text.dropWhile isClassChar) := by
    induction n using Nat.strongRecOn with
    | ind n ih =>
      intro text hn h
      cases text with
      | nil => exact h
      | cons c rest =>
        by_cases hc : isClassChar c = true
        · rw [List.dropWhile_cons_of_pos hc]
          rw [List.length_cons] at hn
          by_cases hdot : c = '.'
          · subst hdot
            obtain ⟨run, later, hrun, rfl, hlater⟩ := h.begins
            rw [List.dropWhile_append_of_pos hrun]
            rw [List.length_append] at hn
            exact ih later.length (by omega) later rfl hlater
          · have hid : isIdChar c = true := by simpa [isClassChar, hdot] using hc
            have hrest := h.tail (.inl (isTagChar_of_isIdChar hid))
            exact ih rest.length (by omega) rest rfl hrest
        · rw [List.dropWhile_cons_of_neg hc]
          exact h
  exact all text.length text rfl h

/-- What a marked reader leaves can be cut, if a text that begins with the mark begins with a run of
fitting characters that can be taken off. -/
private theorem rest_readMarked {mark : Char} {fits : Char → Bool} {text : List Char}
    (h : Cuts text) (hmark : ∀ tail, Cuts (mark :: tail) → Cuts (tail.dropWhile fits)) :
    Cuts (readMarked mark fits text).2 := by
  cases text with
  | nil => exact h
  | cons c tail =>
    by_cases hc : c = mark
    · rw [readMarked, if_pos hc]
      split
      · exact h
      · exact hmark tail (hc ▸ h)
    · rw [readMarked, if_neg hc]
      exact h

theorem rest_readId {text : List Char} (h : Cuts text) : Cuts (readId text).2 := by
  apply rest_readMarked h
  intro tail htail
  obtain ⟨run, rest, hrun, rfl, hrest⟩ := htail.begins
  rw [List.dropWhile_append_of_pos hrun]
  exact hrest.dropWhile fun c hc ↦ .inl (isTagChar_of_isIdChar hc)

theorem rest_readClasses {text : List Char} (h : Cuts text) : Cuts (readClasses text).2 := by
  apply rest_readMarked h
  intro tail htail
  obtain ⟨run, rest, hrun, rfl, hrest⟩ := htail.begins
  rw [List.dropWhile_append_of_pos hrun]
  exact hrest.dropWhile_isClassChar

theorem rest_readClauses {text : List Char} (h : Cuts text) : Cuts (readClauses text).2 := by
  fun_induction readClauses text with
  | case1 text hnone => exact h
  | case2 text body rest hsome later ih =>
    -- The clause that the text begins with ends at the same bracket as the one that is read.
    obtain ⟨other, later, hother, htail, hlater⟩ := h.begins
    rw [upTo?_eq_some_iff.mpr ⟨htail, hother⟩] at hsome
    cases hsome
    exact ih hlater
  | case3 text hno => exact h

/-- No atom begins with a parenthesis. -/
private theorem not_cuts_parenthesis (tail : List Char) : ¬Cuts ('(' :: tail) := by
  intro h
  exact absurd h.begins.1 (by decide)

private theorem rest_readArgument {text : List Char} (h : Cuts text) :
    Cuts (readArgument text).2 := by
  unfold readArgument
  split
  · exact absurd h (not_cuts_parenthesis _)
  · exact h

theorem rest_readPseudo {text : List Char} (h : Cuts text) : Cuts (readPseudo text).2 := by
  unfold readPseudo
  split
  · next tail =>
    obtain ⟨name, rest, hname, rfl, hrest⟩ := h.begins
    rw [List.dropWhile_append_of_pos hname]
    rcases hrest with hrest | ⟨body, later, hne, hbody, rfl, hlater⟩
    · exact (hrest.dropWhile fun c hc ↦ .inl (isTagChar_of_isPseudoChar hc)).rest_readArgument
    · rw [List.dropWhile_cons_of_neg (by decide), readArgument_argument hne hbody]
      exact hlater
  · exact h

theorem trimStart {text : List Char} (h : Cuts text) : Cuts (trimStart text) :=
  h.dropWhile fun _ hc ↦ .inr (.inl hc)

private theorem rest_readChild {text : List Char} (h : Cuts text) : Cuts (readChild text).2 := by
  unfold readChild
  split
  · exact h.tail (.inr (.inr rfl))
  · exact h

/-- What is left of a text that can be cut, after its first segment, can be cut. -/
theorem rest_read {text : List Char} (h : Cuts text) : Cuts (Parts.read text).2 := by
  have htag : Cuts (text.dropWhile isTagChar) := h.dropWhile fun _ hc ↦ .inl hc
  have hpseudo := htag.rest_readId.rest_readClasses.rest_readClauses.rest_readPseudo
  exact hpseudo.trimStart.rest_readChild

end Cuts

/-! ## Reading and cutting -/

namespace Reading

/-- A reading takes atoms, and it stops at the end or where no atom begins. -/
theorem exists_front (text : List Char) :
    ∃ front rest, text = front ++ rest ∧ Cuts front ∧
      ((ofChars text).stuck = none ∧ rest = [] ∨
        (ofChars text).stuck = some (String.ofList rest) ∧ (text ≠ [] → rest ≠ []) ∧
          ReadsNothing rest) := by
  fun_induction ofChars text with
  | case1 text cut hnothing =>
    exact ⟨[], text, rfl, .nil, .inr ⟨rfl, id, readsNothing_of_text_eq_nil hnothing⟩⟩
  | case2 text cut next hsome hlast =>
    refine ⟨text, [], by simp, ?_, .inl ⟨rfl, rfl⟩⟩
    have hblank : Cuts cut.2 := .of_chars fun c hc ↦ .blank (trimStart_eq_nil_iff.mp hlast c hc)
    rw [← Parts.text_append_rest text]
    exact (cuts_text_read text).append hblank
  | case3 text cut next hsome hmore later ih =>
    obtain ⟨front, rest, hnext, hfront, hend⟩ := ih
    have hblank : Cuts (cut.2.takeWhile isWhiteSpace) :=
      .of_chars fun c hc ↦ .blank (List.mem_takeWhile_imp hc)
    refine ⟨cut.1.text ++ (cut.2.takeWhile isWhiteSpace ++ front), rest, ?_, ?_, ?_⟩
    · calc text = cut.1.text ++ cut.2 := (Parts.text_append_rest text).symm
        _ = cut.1.text ++ (cut.2.takeWhile isWhiteSpace ++ next) := by
          rw [takeWhile_append_trimStart]
        _ = cut.1.text ++ (cut.2.takeWhile isWhiteSpace ++ front) ++ rest := by
          rw [hnext, List.append_assoc, List.append_assoc]
    · exact (cuts_text_read text).append (hblank.append hfront)
    · rcases hend with hend | ⟨hstuck, hrest, hnothing⟩
      · exact .inl hend
      · exact .inr ⟨hstuck, fun _ ↦ hrest hmore, hnothing⟩

/-- A text that can be cut is read to its end. -/
theorem stuck_eq_none_of_cuts {text : List Char} (h : Cuts text) (hne : text ≠ []) :
    (ofChars text).stuck = none := by
  fun_induction ofChars text with
  | case1 text cut hnothing =>
    obtain ⟨atom, rest, ha, htext, _⟩ := h.exists_atom hne
    exact absurd ⟨rest, htext.symm⟩ ((readsNothing_of_text_eq_nil hnothing).not_atom ha)
  | case2 text cut next hsome hlast => rfl
  | case3 text cut next hsome hmore later ih => exact ih h.rest_read.trimStart hmore

end Reading

/-- A selector is read exactly when it is not blank and can be cut into atoms. Otherwise, unless it
is blank, the error shows what follows a front part made of atoms, where no atom begins. -/
theorem Segment.readAll_iff_cuts (selector : String) :
    ((∃ segments, readAll selector = .ok segments) ↔
      trim selector.toList ≠ [] ∧ Cuts (trim selector.toList)) ∧
    ∀ error, trim selector.toList ≠ [] → readAll selector = .error error →
      ∃ front rest, error = .invalidSelector (String.ofList rest) ∧
        trim selector.toList = front ++ rest ∧ Cuts front ∧ rest ≠ [] ∧
        ∀ atom, Atom atom → ¬atom <+: rest := by
  obtain ⟨front, rest, htext, hfront, hend⟩ := Reading.exists_front (trim selector.toList)
  refine ⟨⟨?_, ?_⟩, ?_⟩
  · rintro ⟨segments, hread⟩
    have hstuck := (Reading.chain_eq_ok_iff.mp hread).1
    have hne : trim selector.toList ≠ [] := by
      intro hnil
      rw [Reading.ofSelector, hnil, Reading.ofChars_nil] at hstuck
      cases hstuck
    rcases hend with ⟨_, rfl⟩ | ⟨hsome, _⟩
    · rw [List.append_nil] at htext
      exact ⟨hne, htext ▸ hfront⟩
    · rw [Reading.ofSelector, hsome] at hstuck
      cases hstuck
  · rintro ⟨hne, hcuts⟩
    exact ⟨_, Reading.chain_eq_ok_iff.mpr ⟨Reading.stuck_eq_none_of_cuts hcuts hne, rfl⟩⟩
  · intro error hne hread
    obtain ⟨stuck, hstuck, rfl⟩ := Reading.chain_eq_error_iff.mp hread
    rcases hend with ⟨hnone, _⟩ | ⟨hsome, hrest, hnothing⟩
    · rw [Reading.ofSelector, hnone] at hstuck
      cases hstuck
    · rw [Reading.ofSelector, hsome] at hstuck
      cases hstuck
      exact ⟨front, rest, rfl, htext, hfront, hrest hne, fun atom ha ↦ hnothing.not_atom ha⟩

/-- A combinator that no segment begins with. -/
theorem Segment.readAll_iff_cuts_of_tilde :
    trim "div ~ p".toList ≠ [] ∧ readAll "div ~ p" = .error (.invalidSelector "~ p") ∧
      ¬Cuts (trim "div ~ p".toList) := by
  have hne : trim "div ~ p".toList ≠ [] := by decide
  have herror : readAll "div ~ p" = .error (.invalidSelector "~ p") := by decide +kernel
  refine ⟨hne, herror, ?_⟩
  intro hcuts
  rcases (readAll_iff_cuts "div ~ p").1.mpr ⟨hne, hcuts⟩ with ⟨segments, hread⟩
  rw [herror] at hread
  cases hread

end SelectorCompiler
