import Mathlib.Data.List.TakeWhile
import SelectorCompiler.Proofs.Text.Trimming
import SelectorCompiler.Selector.Parts

/-!
# What reading the parts guarantees

Each reader is described by what it can return: the run, clause or argument it took has the shape
of its part, and it takes nothing only where no such part begins. `Parts.Valid` collects the shapes
of all parts; `Parts.valid_read` says that reading gives nothing else.
-/

namespace SelectorCompiler

open Text

/-! ## Characters -/

/-- A character that can stand in an id can stand in a tag. -/
theorem isTagChar_of_isIdChar {c : Char} (h : isIdChar c = true) : isTagChar c = true := by
  simp only [isIdChar, Bool.or_eq_true] at h
  simp only [isTagChar, Bool.or_eq_true]
  rcases h with ((h | h) | h) | h <;> simp [h]

/-- A character that can stand in the name of a pseudo-class can stand in a tag. -/
theorem isTagChar_of_isPseudoChar {c : Char} (h : isPseudoChar c = true) : isTagChar c = true := by
  simp only [isPseudoChar, Bool.or_eq_true] at h
  simp only [isTagChar, Bool.or_eq_true]
  rcases h with (h | h) | h <;> simp [h]

/-! ## Single readers -/

/-- A marked run has at least one character and only fitting ones. -/
theorem readMarked_fst_eq_some {mark : Char} {fits : Char → Bool} {text run : List Char}
    (h : (readMarked mark fits text).1 = some run) : run ≠ [] ∧ ∀ c ∈ run, fits c = true := by
  cases text with
  | nil => cases h
  | cons c rest =>
    by_cases hc : c = mark
    · rw [readMarked, if_pos hc] at h
      cases htake : rest.takeWhile fits with
      | nil =>
        rw [htake] at h
        cases h
      | cons first later =>
        rw [htake] at h
        cases h
        rw [← htake]
        refine ⟨by simp [htake], ?_⟩
        intro d hd
        exact List.mem_takeWhile_imp hd
    · rw [readMarked, if_neg hc] at h
      cases h

/-- No marked run is read only where no fitting character follows the mark. -/
theorem readMarked_fst_ne_none {mark : Char} {fits : Char → Bool} {c : Char} (hc : fits c = true)
    (rest : List Char) : (readMarked mark fits (mark :: c :: rest)).1 ≠ none := by
  simp [readMarked, hc]

/-- The body of a clause does not hold the bracket that closes it. -/
theorem not_mem_of_mem_readClauses {text body : List Char} (h : body ∈ (readClauses text).1) :
    ']' ∉ body := by
  fun_induction readClauses text with
  | case1 text hnone => cases h
  | case2 text first rest hsome later ih =>
    rcases List.mem_cons.mp h with rfl | h
    · exact (upTo?_eq_some_iff.mp hsome).2
    · exact ih h
  | case3 text hno => cases h

/-- A clause that is closed is read. -/
theorem readClauses_clause {body : List Char} (h : ']' ∉ body) (rest : List Char) :
    readClauses ('[' :: (body ++ ']' :: rest)) =
      (body :: (readClauses rest).1, (readClauses rest).2) := by
  rw [readClauses]
  split
  · next hnone =>
    rw [upTo?_eq_none_iff] at hnone
    simp at hnone
  · next other later hsome =>
    have heq : upTo? ']' (body ++ ']' :: rest) = some (body, rest) :=
      upTo?_eq_some_iff.mpr ⟨rfl, h⟩
    rw [heq] at hsome
    cases hsome
    rfl

/-- An argument is not empty and does not hold the parenthesis that closes it. -/
theorem readArgument_fst_eq_some {text body : List Char} (h : (readArgument text).1 = some body) :
    body ≠ [] ∧ ')' ∉ body := by
  unfold readArgument at h
  split at h
  · next text =>
    split at h
    · cases h
    · cases h
    · next found rest hne hsome =>
      cases h
      refine ⟨?_, (upTo?_eq_some_iff.mp hsome).2⟩
      rintro rfl
      exact hne rfl
  · cases h

/-- An argument that is not empty and is closed is read. -/
theorem readArgument_argument {body : List Char} (hne : body ≠ []) (h : ')' ∉ body)
    (rest : List Char) : readArgument ('(' :: (body ++ ')' :: rest)) = (some body, rest) := by
  have heq : upTo? ')' (body ++ ')' :: rest) = some (body, rest) := upTo?_eq_some_iff.mpr ⟨rfl, h⟩
  cases body with
  | nil => exact absurd rfl hne
  | cons c body => simp only [readArgument, heq]

/-! ## All parts together -/

/-- The shapes of the parts of a segment. -/
structure Parts.Valid (parts : Parts) : Prop where
  /-- The tag is a run of tag characters. -/
  tag : ∀ c ∈ parts.tag, isTagChar c = true
  /-- The id is a run of id characters. -/
  id : ∀ run, parts.id = some run → run ≠ [] ∧ ∀ c ∈ run, isIdChar c = true
  /-- The classes are a run of class characters. -/
  classes : ∀ run, parts.classes = some run → run ≠ [] ∧ ∀ c ∈ run, isClassChar c = true
  /-- No clause holds a closing bracket. -/
  clauses : ∀ body ∈ parts.clauses, ']' ∉ body
  /-- The name of the pseudo-class is a run of pseudo characters. -/
  name : ∀ name argument, parts.pseudo = some (name, argument) → ∀ c ∈ name, isPseudoChar c = true
  /-- The argument of the pseudo-class has text and no closing parenthesis. -/
  argument : ∀ name body, parts.pseudo = some (name, some body) → body ≠ [] ∧ ')' ∉ body
  /-- What follows is white space. -/
  blank : ∀ c ∈ parts.blank, isWhiteSpace c = true

private theorem readPseudo_fst_eq_some {text name : List Char} {argument : Option (List Char)}
    (h : (readPseudo text).1 = some (name, argument)) :
    (∀ c ∈ name, isPseudoChar c = true) ∧
      ∀ body, argument = some body → body ≠ [] ∧ ')' ∉ body := by
  unfold readPseudo at h
  split at h
  · cases h
    refine ⟨fun c hc ↦ List.mem_takeWhile_imp hc, ?_⟩
    intro body hbody
    exact readArgument_fst_eq_some hbody
  · cases h

/-- Reading gives valid parts. -/
theorem Parts.valid_read (text : List Char) : (Parts.read text).1.Valid where
  tag _ h := List.mem_takeWhile_imp h
  id _ h := readMarked_fst_eq_some h
  classes _ h := readMarked_fst_eq_some h
  clauses _ h := not_mem_of_mem_readClauses h
  name _ _ h := (readPseudo_fst_eq_some h).1
  argument _ body h := (readPseudo_fst_eq_some h).2 body rfl
  blank _ h := List.mem_takeWhile_imp h

/-- The text of a segment up to its pseudo-class. -/
def Parts.conditionsText (parts : Parts) : List Char :=
  parts.tag ++ markedText '#' parts.id ++ markedText '.' parts.classes ++
    parts.clauses.flatMap clauseText ++ pseudoText parts.pseudo

theorem Parts.text_eq_conditionsText (parts : Parts) :
    parts.text = parts.conditionsText ++ parts.blank ++ childText parts.child := rfl

private theorem endsIn_markedText {fits : Char → Prop} {mark : Char} {run : Option (List Char)}
    (hmark : fits mark) (hrun : ∀ text, run = some text → ∀ c ∈ text, fits c) :
    EndsIn fits (markedText mark run) := by
  cases run with
  | none => exact .of_forall (by simp [markedText])
  | some text => exact .of_forall (List.forall_mem_cons.mpr ⟨hmark, hrun text rfl⟩)

private theorem endsIn_argumentText {fits : Char → Prop} (hclose : fits ')')
    (argument : Option (List Char)) : EndsIn fits (argumentText argument) := by
  cases argument with
  | none => exact .of_forall (by simp [argumentText])
  | some body => exact .concat ('(' :: body) hclose

/-- The conditions end in a character of a run, or in a mark. -/
theorem Parts.Valid.endsIn_conditionsText {parts : Parts} (h : parts.Valid) {fits : Char → Prop}
    (htag : ∀ c, isTagChar c = true → fits c) (hmark : ∀ c ∈ ['#', '.', ']', ':', ')'], fits c) :
    EndsIn fits parts.conditionsText := by
  have hclass : ∀ c, isClassChar c = true → fits c := by
    intro c hc
    rcases Bool.or_eq_true _ _ ▸ hc with hid | hdot
    · exact htag c (isTagChar_of_isIdChar hid)
    · exact hmark c (by simp [beq_iff_eq.mp hdot])
  refine .append (.append (.append (.append (.of_forall ?_) ?_) ?_) (.flatMap ?_)) ?_
  · exact fun c hc ↦ htag c (h.tag c hc)
  · exact endsIn_markedText (hmark _ (by simp)) fun run hrun c hc ↦
      htag c (isTagChar_of_isIdChar ((h.id run hrun).2 c hc))
  · exact endsIn_markedText (hmark _ (by simp)) fun run hrun c hc ↦
      hclass c ((h.classes run hrun).2 c hc)
  · exact fun body _ ↦ .concat ('[' :: body) (hmark _ (by simp))
  · cases hpseudo : parts.pseudo with
    | none => exact .of_forall (by simp [pseudoText])
    | some pseudo =>
      rcases pseudo with ⟨name, argument⟩
      have hname : EndsIn fits (':' :: name) := by
        refine .of_forall (List.forall_mem_cons.mpr ⟨hmark _ (by simp), ?_⟩)
        exact fun c hc ↦ htag c (isTagChar_of_isPseudoChar (h.name name argument hpseudo c hc))
      exact hname.append (endsIn_argumentText (hmark _ (by simp)) argument)

/-- The text of a segment is the text of its parts. -/
@[simp]
theorem Parts.toList_selector (parts : Parts) : parts.segment.selector.toList = parts.text :=
  String.toList_ofList

/-! ## Texts that begin with no part -/

/-- No reader takes anything from the front of the text. -/
structure ReadsNothing (text : List Char) : Prop where
  tag : text.takeWhile isTagChar = []
  id : (readId text).1 = none
  classes : (readClasses text).1 = none
  clauses : (readClauses text).1 = []
  pseudo : (readPseudo text).1 = none
  blank : text.takeWhile isWhiteSpace = []
  child : (readChild text).1 = false

private theorem markedText_eq_nil {mark : Char} {run : Option (List Char)}
    (h : markedText mark run = []) : run = none := by
  cases run with
  | none => rfl
  | some run => cases h

private theorem pseudoText_eq_nil {pseudo : Option (List Char × Option (List Char))}
    (h : pseudoText pseudo = []) : pseudo = none := by
  cases pseudo with
  | none => rfl
  | some pseudo => cases h

/-- When the parts have no text, each reader has declined the whole text. -/
theorem readsNothing_of_text_eq_nil {text : List Char} (h : (Parts.read text).1.text = []) :
    ReadsNothing text := by
  simp only [Parts.read, Parts.text, List.append_eq_nil_iff] at h
  obtain ⟨⟨⟨⟨⟨⟨htag, hid⟩, hclasses⟩, hclauses⟩, hpseudo⟩, hblank⟩, hchild⟩ := h
  -- Each reader was given what the readers before it left, and that is the whole text.
  have whole {front rest : List Char} (hfront : front = []) (happend : front ++ rest = text) :
      rest = text := by
    rwa [hfront, List.nil_append] at happend
  rw [whole htag List.takeWhile_append_dropWhile] at hid hclasses hclauses hpseudo hblank hchild
  have hid' : (readId text).2 = text := whole hid (markedText_append_rest '#' isIdChar text)
  rw [hid'] at hclasses hclauses hpseudo hblank hchild
  have hclasses' : (readClasses text).2 = text :=
    whole hclasses (markedText_append_rest '.' isClassChar text)
  rw [hclasses'] at hclauses hpseudo hblank hchild
  rw [whole hclauses (clauseText_append_rest text)] at hpseudo hblank hchild
  rw [whole hpseudo (pseudoText_append_rest text)] at hblank hchild
  rw [whole hblank (takeWhile_append_trimStart text)] at hchild
  refine ⟨htag, markedText_eq_nil hid, markedText_eq_nil hclasses, ?_, pseudoText_eq_nil hpseudo,
    hblank, ?_⟩
  · cases hlist : (readClauses text).1 with
    | nil => rfl
    | cons body rest => simp [hlist, clauseText] at hclauses
  · cases hmark : (readChild text).1 with
    | false => rfl
    | true => simp [hmark, childText] at hchild

end SelectorCompiler
