import SelectorCompiler.Proofs.OrderedMap
import SelectorCompiler.Proofs.Selector.Parts

/-!
# Well-formed segments

What is known of a segment that was read: each of its texts is made of the characters that can stand
there, and none is empty but possibly the name of an attribute. The condition is decidable, and it
speaks of the segment alone, not of a text it was read from.
-/

namespace SelectorCompiler

open Text

/-! ## The condition -/

/-- At least one character, and only characters of the class. -/
def Text.IsRun (fits : Char → Bool) (text : String) : Prop :=
  text ≠ "" ∧ ∀ c ∈ text.toList, fits c = true

theorem Text.isRun_ofList {fits : Char → Bool} {run : List Char} (hne : run ≠ [])
    (h : ∀ c ∈ run, fits c = true) : IsRun fits (String.ofList run) := by
  refine ⟨by simpa using hne, ?_⟩
  rwa [String.toList_ofList]

/-- A pseudo-class that can be written: its name is a run, and its argument has text and ends where
it is closed. -/
structure PseudoClass.WellFormed (pseudo : PseudoClass) : Prop where
  name : IsRun isPseudoChar pseudo.name
  expression : ∀ text ∈ pseudo.expression, text ≠ "" ∧ ')' ∉ text.toList

/-- A segment that can be written. The names of its attributes are distinct in any case, as the keys
of a map. -/
structure Segment.WellFormed (segment : Segment) : Prop where
  tag : IsRun isTagChar segment.tag
  id : ∀ id ∈ segment.id, IsRun isIdChar id
  classes : ∀ name ∈ segment.classes, IsRun isIdChar name
  /-- The name of an attribute ends at `=` and stands between brackets. -/
  names : ∀ entry ∈ segment.attributes.entries,
    '=' ∉ entry.1.toList ∧ ']' ∉ entry.1.toList
  /-- A value has text, and no second `=` ends it before the bracket. -/
  values : ∀ entry ∈ segment.attributes.entries, ∀ value ∈ entry.2,
    value ≠ "" ∧ '=' ∉ value.toList ∧ ']' ∉ value.toList
  pseudo : ∀ pseudo ∈ segment.pseudo, pseudo.WellFormed

instance (fits : Char → Bool) (text : String) : Decidable (IsRun fits text) :=
  decidable_of_iff (text ≠ "" ∧ text.toList.all fits = true)
    (and_congr_right fun _ ↦ List.all_eq_true)

instance (pseudo : PseudoClass) : Decidable pseudo.WellFormed :=
  decidable_of_iff
    (IsRun isPseudoChar pseudo.name ∧
      ∀ text ∈ pseudo.expression, text ≠ "" ∧ ')' ∉ text.toList)
    ⟨fun h ↦ ⟨h.1, h.2⟩, fun h ↦ ⟨h.name, h.expression⟩⟩

instance (segment : Segment) : Decidable segment.WellFormed :=
  decidable_of_iff
    (IsRun isTagChar segment.tag ∧ (∀ id ∈ segment.id, IsRun isIdChar id) ∧
      (∀ name ∈ segment.classes, IsRun isIdChar name) ∧
      (∀ entry ∈ segment.attributes.entries, '=' ∉ entry.1.toList ∧ ']' ∉ entry.1.toList) ∧
      (∀ entry ∈ segment.attributes.entries, ∀ value ∈ entry.2,
        value ≠ "" ∧ '=' ∉ value.toList ∧ ']' ∉ value.toList) ∧
      ∀ pseudo ∈ segment.pseudo, pseudo.WellFormed)
    ⟨fun ⟨tag, id, classes, names, values, pseudo⟩ ↦ ⟨tag, id, classes, names, values, pseudo⟩,
      fun h ↦ ⟨h.tag, h.id, h.classes, h.names, h.values, h.pseudo⟩⟩

/-! ## Reading gives well-formed segments -/

private theorem isRun_of_mem_classNames {run : List Char} (h : ∀ c ∈ run, isClassChar c = true)
    {name : String} (hname : name ∈ classNames run) : IsRun isIdChar name := by
  simp only [classNames, List.mem_map, List.mem_filter, Bool.not_eq_true',
    List.isEmpty_eq_false_iff] at hname
  obtain ⟨piece, ⟨hpiece, hne⟩, rfl⟩ := hname
  refine isRun_ofList hne ?_
  intro c hc
  obtain ⟨hrun, hdot⟩ := mem_of_mem_splitOn hpiece hc
  simpa [isClassChar, hdot] using h c hrun

/-- The name and the value of an attribute are parts of the clause without `=`. -/
private theorem attribute?_eq_some {clause : List Char} {entry : String × Option String}
    (h : attribute? clause = some entry) :
    (∀ c ∈ entry.1.toList, c ∈ clause ∧ c ≠ '=') ∧
      ∀ value, entry.2 = some value →
        value ≠ "" ∧ ∀ c ∈ value.toList, c ∈ clause ∧ c ≠ '=' := by
  have taken {text : List Char} {c : Char} (hc : c ∈ text.takeWhile (· != '=')) :
      c ∈ text ∧ c ≠ '=' :=
    ⟨(List.takeWhile_prefix _).subset hc, by simpa using List.mem_takeWhile_imp hc⟩
  unfold attribute? at h
  split at h
  · cases h
  · cases h
    refine ⟨fun c hc ↦ taken (by simpa using hc), ?_⟩
    intro value hvalue
    split at hvalue
    · cases hvalue
    · next hne =>
      cases hvalue
      refine ⟨by simpa using hne, ?_⟩
      intro c hc
      obtain ⟨hmem, hequal⟩ := taken (by simpa using hc)
      exact ⟨(List.dropWhile_suffix _).subset (List.mem_of_mem_tail hmem), hequal⟩

/-- Valid parts describe a well-formed segment. -/
theorem Parts.Valid.wellFormed {parts : Parts} (h : parts.Valid) : parts.segment.WellFormed where
  tag := by
    change IsRun isTagChar (if parts.tag.isEmpty then universalTag else String.ofList parts.tag)
    split
    · decide
    · next hne => exact isRun_ofList (by simpa using hne) h.tag
  id := by
    intro id hid
    obtain ⟨run, hrun, rfl⟩ := Option.map_eq_some_iff.mp hid
    exact isRun_ofList (h.id run hrun).1 (h.id run hrun).2
  classes := by
    intro name hname
    change name ∈ (parts.classes.map classNames).getD [] at hname
    cases hclasses : parts.classes with
    | none =>
      rw [hclasses] at hname
      cases hname
    | some run =>
      rw [hclasses] at hname
      exact isRun_of_mem_classNames (h.classes run hclasses).2 hname
  names := by
    intro entry hentry
    obtain ⟨clause, hclause, hsome⟩ :=
      List.mem_filterMap.mp (OrderedMap.mem_of_mem_entries_ofList hentry)
    have hname := (attribute?_eq_some hsome).1
    exact ⟨fun hc ↦ (hname _ hc).2 rfl, fun hc ↦ h.clauses clause hclause (hname _ hc).1⟩
  values := by
    intro entry hentry value hvalue
    obtain ⟨clause, hclause, hsome⟩ :=
      List.mem_filterMap.mp (OrderedMap.mem_of_mem_entries_ofList hentry)
    obtain ⟨hne, hchars⟩ := (attribute?_eq_some hsome).2 value hvalue
    exact ⟨hne, fun hc ↦ (hchars _ hc).2 rfl, fun hc ↦ h.clauses clause hclause (hchars _ hc).1⟩
  pseudo := by
    intro pseudo hpseudo
    obtain ⟨⟨name, argument⟩, hsome, hclass⟩ := Option.bind_eq_some_iff.mp hpseudo
    cases name with
    | nil => cases hclass
    | cons c name =>
      cases hclass
      refine ⟨isRun_ofList (List.cons_ne_nil c name) (h.name _ _ hsome), ?_⟩
      intro text htext
      obtain ⟨body, rfl, rfl⟩ := Option.map_eq_some_iff.mp htext
      obtain ⟨hne, hclose⟩ := h.argument _ body hsome
      exact ⟨by simpa using hne, by simpa using hclose⟩

end SelectorCompiler
