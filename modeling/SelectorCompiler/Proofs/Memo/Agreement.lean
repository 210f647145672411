import SelectorCompiler.Proofs.Memo.Reloading

/-!
# Two ways to read a memo

A JSON text is read as a memo member by member, or as a value first. Member by member every member
must be a string, and the memo keeps the order of the text. As a value, of the members with one key
only the last counts, and the entries come in the order of their keys.

So the first way accepts less: it fails where a member is no string although a later one takes its
place. Where both succeed they find the same entries.
-/

namespace SelectorCompiler.Memo

open Json

/-- The member stands in front of another one with its key, which takes its place. -/
def Overwritten (members : List (String × Value)) (member : String × Value) : Prop :=
  ∃ front rest, members = front ++ member :: rest ∧ member.1 ∈ rest.map Prod.fst

/-! ## Members that are strings -/

/-- Members are read when all of them are strings. -/
theorem exists_strings_iff {members : List (String × Value)} :
    (∃ entries, strings members = .ok entries) ↔ ∀ member ∈ members, member.2.kind = .string := by
  induction members with
  | nil => simp [strings]
  | cons member rest ih =>
    obtain ⟨key, value⟩ := member
    rw [List.forall_mem_cons, ← ih]
    cases value with
    | string text =>
      rw [strings]
      cases strings rest <;> simp [Except.map, Value.kind]
    | _ => simp [strings, Value.kind]

/-- A memo that is read member by member is read as a value too, with its entries sorted. -/
theorem ofValue_of_ofDocument? {value : Value} {memo : Memo} (h : ofDocument? value = some memo) :
    ofValue value = .ok memo.sorted := by
  cases value with
  | object members =>
    cases hstrings : strings members with
    | error rejection =>
      rw [ofDocument?, hstrings] at h
      cases h
    | ok entries =>
      rw [ofDocument?, hstrings] at h
      cases h
      -- What the members make up is what the entries make up, so they are the members of the memo.
      have hmap : OrderedMap.ofList members =
          OrderedMap.ofList ((OrderedMap.ofList entries).entries.map
            fun entry ↦ (entry.1, Value.string entry.2)) := by
        apply OrderedMap.ext_entries
        rw [map_of_strings_eq_ok hstrings, OrderedMap.entries_ofList_map,
          OrderedMap.entries_ofList_map, OrderedMap.ofList_entries]
      rw [ofValue, hmap]
      exact ofValue_toValue (.ofList entries)
  | _ => cases h

/-- In an object that is a memo, a member whose key does not come again is a string. -/
theorem kind_of_last {front rest : List (String × Value)} {member : String × Value} {memo : Memo}
    (h : ofValue (.object (front ++ member :: rest)) = .ok memo)
    (hlast : member.1 ∉ rest.map Prod.fst) : member.2.kind = .string := by
  apply exists_strings_iff.mp ⟨_, strings_of_ofValue h⟩ member
  rw [OrderedMap.mem_entries_sorted, ← OrderedMap.get?_eq_some_iff]
  exact OrderedMap.get?_ofList_of_last member.2 hlast

/-- An object that is a memo as a value is one member by member, unless a member that is no string
is overwritten. -/
theorem exists_ofDocument?_iff {members : List (String × Value)} {memo : Memo}
    (h : ofValue (.object members) = .ok memo) :
    (∃ loaded, ofDocument? (.object members) = some loaded) ↔
      ∀ member, Overwritten members member → member.2.kind = .string := by
  have hread : (∃ loaded, ofDocument? (.object members) = some loaded) ↔
      ∃ entries, strings members = .ok entries := by
    rw [ofDocument?]
    cases strings members <;> simp [Except.toOption]
  rw [hread, exists_strings_iff]
  constructor
  · rintro hall member ⟨front, rest, rfl, _⟩
    apply hall
    simp
  · intro hoverwritten member hmem
    obtain ⟨front, rest, rfl⟩ := List.append_of_mem hmem
    by_cases hlater : member.1 ∈ rest.map Prod.fst
    · exact hoverwritten member ⟨front, rest, rfl, hlater⟩
    · exact kind_of_last h hlater

/-- Only an object is a memo. -/
theorem exists_members_of_ofValue {value : Value} {memo : Memo} (h : ofValue value = .ok memo) :
    ∃ members, value = .object members := by
  cases value with
  | object members => exact ⟨members, rfl⟩
  | _ => cases h

/-! ## The two commands -/

section Commands

variable {text : String} {prior memo : Memo}

theorem perform_load_eq_done_iff :
    prior.perform (.load text) = (memo, .done) ↔
      ∃ value, Value.parse? text = some value ∧ ofDocument? value = some memo := by
  rw [perform, ← Option.bind_eq_some_iff]
  cases (Value.parse? text).bind ofDocument? <;> simp

theorem perform_replaceFromText_eq_done_iff :
    prior.perform (.replaceFromText text) = (memo, .done) ↔
      ∃ value, Value.parse? text = some value ∧ ofValue value = .ok memo := by
  rw [perform]
  cases Value.parse? text with
  | none => simp
  | some value =>
    simp only [replaceFromValue, Option.some.injEq, exists_eq_left']
    cases ofValue value <;> simp

end Commands

/-- A text that is loaded member by member can replace a memo as a value, and then has the same
entries in increasing order of their keys. A text that can replace a memo as a value is an object,
and it is loaded member by member exactly when no member that is overwritten is anything but a
string. What the memos were before has no part in this. -/
theorem perform_load_agrees (text : String) (prior other : Memo) :
    (∀ loaded, prior.perform (.load text) = (loaded, .done) →
      ∃ replaced, other.perform (.replaceFromText text) = (replaced, .done) ∧
        replaced.sameEntries loaded = true ∧ replaced.keys.Pairwise (· < ·)) ∧
    ∀ replaced, other.perform (.replaceFromText text) = (replaced, .done) →
      ∃ members, Value.parse? text = some (.object members) ∧
        ((∃ loaded, prior.perform (.load text) = (loaded, .done)) ↔
          ∀ member, Overwritten members member → member.2.kind = .string) := by
  constructor
  · intro loaded hload
    obtain ⟨value, hparse, hvalue⟩ := perform_load_eq_done_iff.mp hload
    refine ⟨loaded.sorted, ?_, loaded.sameEntries_sorted, loaded.pairwise_keys_sorted⟩
    exact perform_replaceFromText_eq_done_iff.mpr ⟨value, hparse, ofValue_of_ofDocument? hvalue⟩
  · intro replaced hreplace
    obtain ⟨value, hparse, hvalue⟩ := perform_replaceFromText_eq_done_iff.mp hreplace
    obtain ⟨members, rfl⟩ := exists_members_of_ofValue hvalue
    refine ⟨members, hparse, ?_⟩
    simp only [perform_load_eq_done_iff, hparse, Option.some.injEq, exists_eq_left']
    exact exists_ofDocument?_iff hvalue

/-- A key that comes twice: with two strings both ways succeed, and with a number in front of the
string only the second does. -/
theorem perform_load_agrees_of_repeats :
    let text := "\x7b\"b\":\"//b\",\"a\":\"//a\",\"b\":\"//c\"\x7d"
    let mixed := "\x7b\"a\":1,\"a\":\"//a\"\x7d"
    perform .empty (.load text) = (.ofList [("b", "//c"), ("a", "//a")], .done) ∧
      (∃ replaced, perform .empty (.replaceFromText text) = (replaced, .done) ∧
        replaced.sameEntries (.ofList [("b", "//c"), ("a", "//a")]) = true) ∧
      perform .empty (.replaceFromText mixed) = (.ofList [("a", "//a")], .done) ∧
      ¬∃ loaded, perform .empty (.load mixed) = (loaded, .done) := by
  intro text mixed
  have hload : perform .empty (.load text) = (.ofList [("b", "//c"), ("a", "//a")], .done) := by
    decide +kernel
  have hreplace : perform .empty (.replaceFromText mixed) = (.ofList [("a", "//a")], .done) := by
    decide +kernel
  obtain ⟨replaced, htext, hsame, -⟩ := (perform_load_agrees text .empty .empty).1 _ hload
  refine ⟨hload, ⟨replaced, htext, hsame⟩, hreplace, ?_⟩
  obtain ⟨members, hparse, hiff⟩ := (perform_load_agrees mixed .empty .empty).2 _ hreplace
  have htokens : Token.scan mixed.toList =
      some [.openObject, .string "a", .colon, .number "1", .comma, .string "a", .colon,
        .string "//a", .closeObject] := by
    decide +kernel
  have hmembers : [("a", .number "1"), ("a", .string "//a")] = members := by
    rw [Value.parse?, htokens] at hparse
    exact Value.object.inj (Option.some.inj hparse)
  subst hmembers
  rw [hiff]
  intro hstrings
  have hnumber := hstrings ("a", .number "1") ⟨[], [("a", .string "//a")], rfl, by simp⟩
  cases hnumber

end SelectorCompiler.Memo
