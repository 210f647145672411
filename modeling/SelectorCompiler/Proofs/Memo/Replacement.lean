import SelectorCompiler.Proofs.Memo.Agreement

/-!
# Replacing a memo by a JSON value

A value takes the place of a memo as a whole or not at all. It does when it is an object and every
member that stands is a string; the new memo has these members in the order of their keys. If not,
the memo stays, and the answer names the kind of the value or, in an object, the member with the
least key among those that are no strings.
-/

namespace SelectorCompiler.Memo

open Json

/-- The member stands: no later one has its key. -/
def Stands {α : Type} (members : List (String × α)) (member : String × α) : Prop :=
  ∃ front rest, members = front ++ member :: rest ∧ member.1 ∉ rest.map Prod.fst

/-- The value is an object, and the members that stand are strings. -/
def IsMapping (value : Value) : Prop :=
  ∃ members, value = .object members ∧ ∀ member, Stands members member → member.2.kind = .string

/-- The memo is made of these members: those that stand are strings, and they are its entries, in
increasing order of their keys. -/
structure MadeOf (members : List (String × Value)) (memo : Memo) : Prop where
  strings : ∀ member, Stands members member → member.2.kind = .string
  keys : memo.keys.Pairwise (· < ·)
  entries : ∀ key path, (key, path) ∈ memo.entries ↔ Stands members (key, .string path)

/-- What a value is called. -/
def kindName : Value → String
  | .null => "null"
  | .bool _ => "boolean"
  | .number _ => "number"
  | .string _ => "string"
  | .array _ => "array"
  | .object _ => "object"

/-- A member that stands and is no string, with the least key of all such members. -/
structure LeastFault (members : List (String × Value)) (fault : String × Value) : Prop where
  stands : Stands members fault
  not_string : fault.2.kind ≠ .string
  least : ∀ member, Stands members member → member.2.kind ≠ .string → fault.1 ≤ member.1

/-! ## Members in the order of their keys -/

section Members

variable {members : List (String × Value)}

theorem name_kind (value : Value) : value.kind.name = kindName value := by
  cases value <;> rfl

theorem stands_iff {member : String × Value} :
    Stands members member ↔ member ∈ (OrderedMap.ofList members).entries :=
  OrderedMap.mem_entries_ofList_iff.symm

theorem mem_sorted_ofList_iff {member : String × Value} :
    member ∈ (OrderedMap.ofList members).sorted.entries ↔ Stands members member := by
  rw [OrderedMap.mem_entries_sorted, stands_iff]

/-- The member that is reported is the first that is no string. -/
theorem strings_eq_error {rejection : Rejection} (h : strings members = .error rejection) :
    ∃ front fault rest, members = front ++ fault :: rest ∧
      (∀ member ∈ front, member.2.kind = .string) ∧ fault.2.kind ≠ .string ∧
      rejection = ⟨fault.2.kind, some fault.1⟩ := by
  induction members with
  | nil => cases h
  | cons member later ih =>
    obtain ⟨key, value⟩ := member
    cases value with
    | string text =>
      rw [strings] at h
      cases hlater : strings later with
      | ok entries =>
        rw [hlater] at h
        cases h
      | error fault =>
        rw [hlater] at h
        cases h
        obtain ⟨front, fault, rest, rfl, hfront, hfault⟩ := ih hlater
        refine ⟨(key, .string text) :: front, fault, rest, rfl, ?_, hfault⟩
        exact List.forall_mem_cons.mpr ⟨rfl, hfront⟩
    | _ =>
      cases h
      exact ⟨[], _, later, rfl, by simp, by simp [Value.kind], rfl⟩

/-- Where keys increase, the first member that is no string has the least key of them. -/
theorem le_of_first {front rest : List (String × Value)} {fault member : String × Value}
    (hkeys : ((front ++ fault :: rest).map Prod.fst).Pairwise (· < ·))
    (hfront : ∀ member ∈ front, member.2.kind = .string)
    (hmem : member ∈ front ++ fault :: rest) (hmember : member.2.kind ≠ .string) :
    fault.1 ≤ member.1 := by
  rw [List.pairwise_map, List.pairwise_append, List.pairwise_cons] at hkeys
  rcases List.mem_append.mp hmem with hearly | hlate
  · exact absurd (hfront member hearly) hmember
  · rcases List.mem_cons.mp hlate with rfl | hrest
    · exact String.le_refl _
    · exact String.not_lt.mp fun hback ↦
        String.lt_irrefl _ (String.lt_trans (hkeys.2.1.1 member hrest) hback)

/-- An object is rejected for the member with the least key among those that are no strings. -/
theorem exists_leastFault {rejection : Rejection}
    (h : ofValue (.object members) = .error rejection) :
    ∃ fault, LeastFault members fault ∧ rejection = ⟨fault.2.kind, some fault.1⟩ := by
  have hkeys := (OrderedMap.ofList members).pairwise_keys_sorted
  rw [ofValue] at h
  cases hstrings : strings (OrderedMap.ofList members).sorted.entries with
  | ok entries =>
    rw [hstrings] at h
    cases h
  | error found =>
    rw [hstrings] at h
    cases h
    obtain ⟨front, fault, rest, hsplit, hfront, hfault, hfound⟩ := strings_eq_error hstrings
    refine ⟨fault, ⟨?_, hfault, ?_⟩, hfound⟩
    · rw [← mem_sorted_ofList_iff, hsplit]
      simp
    · intro member hstands hmember
      rw [← mem_sorted_ofList_iff, hsplit] at hstands
      rw [OrderedMap.keys, hsplit] at hkeys
      exact le_of_first hkeys hfront hstands hmember

/-- An object that is accepted gives the members that stand, in the order of their keys. -/
theorem entries_of_ofValue {memo : Memo} (h : ofValue (.object members) = .ok memo) :
    memo.entries.map (fun entry ↦ (entry.1, Value.string entry.2)) =
      (OrderedMap.ofList members).sorted.entries :=
  (map_of_strings_eq_ok (strings_of_ofValue h)).symm

end Members

/-! ## Values that are accepted -/

/-- Exactly the mappings of strings are accepted. -/
theorem exists_ofValue_iff {value : Value} :
    (∃ memo, ofValue value = .ok memo) ↔ IsMapping value := by
  cases value with
  | object members =>
    have hread : (∃ memo, ofValue (.object members) = .ok memo) ↔
        ∃ entries, strings (OrderedMap.ofList members).sorted.entries = .ok entries := by
      rw [ofValue]
      cases strings (OrderedMap.ofList members).sorted.entries <;> simp [Except.map]
    simp only [hread, exists_strings_iff, mem_sorted_ofList_iff, IsMapping, Value.object.injEq,
      exists_eq_left']
  | _ => simp [ofValue, IsMapping]

theorem keys_of_ofValue {value : Value} {memo : Memo} (h : ofValue value = .ok memo) :
    memo.keys.Pairwise (· < ·) := by
  obtain ⟨members, rfl⟩ := exists_members_of_ofValue h
  have hkeys := congrArg (List.map Prod.fst) (entries_of_ofValue h)
  rw [List.map_map] at hkeys
  have hsorted := (OrderedMap.ofList members).pairwise_keys_sorted
  rw [OrderedMap.keys, ← hkeys] at hsorted
  exact hsorted

theorem mem_entries_of_ofValue_iff {members : List (String × Value)} {memo : Memo}
    (h : ofValue (.object members) = .ok memo) {key path : String} :
    (key, path) ∈ memo.entries ↔ Stands members (key, .string path) := by
  rw [← mem_sorted_ofList_iff, ← entries_of_ofValue h, List.mem_map]
  constructor
  · intro hmem
    exact ⟨(key, path), hmem, rfl⟩
  · rintro ⟨entry, hmem, hentry⟩
    cases hentry
    exact hmem

/-- A value is the memo of its members. -/
theorem ofValue_eq_ok_iff {value : Value} {memo : Memo} :
    ofValue value = .ok memo ↔ ∃ members, value = .object members ∧ MadeOf members memo := by
  constructor
  · intro h
    obtain ⟨members, rfl⟩ := exists_members_of_ofValue h
    refine ⟨members, rfl, ?_, keys_of_ofValue h, fun key path ↦ mem_entries_of_ofValue_iff h⟩
    rcases exists_ofValue_iff.mp ⟨memo, h⟩ with ⟨_, hsame, hstrings⟩
    cases hsame
    exact hstrings
  · rintro ⟨members, rfl, hmade⟩
    rcases exists_ofValue_iff.mpr ⟨members, rfl, hmade.strings⟩ with ⟨other, h⟩
    have hsame : other = memo := by
      apply OrderedMap.eq_of_keys_pairwise (keys_of_ofValue h) hmade.keys
      rintro ⟨key, path⟩
      rw [mem_entries_of_ofValue_iff h, hmade.entries]
    rw [h, hsame]

theorem exists_rejection_iff {value : Value} :
    (∃ rejection, ofValue value = .error rejection) ↔ ¬IsMapping value := by
  rw [← exists_ofValue_iff]
  cases ofValue value <;> simp

/-- A mapping of strings takes the place of the memo, of a query's memo too, whatever was there:
its entries are the members that stand, in increasing order of their keys. Every other value leaves
the memo and the query as they are, and the answer says what was found: the kind of a value that
is no object, or in an object the kind and the key of the least fault. -/
theorem perform_replaceFromValue_exact (memo : Memo) (query : Query) (value : Value) :
    (IsMapping value → ∃ replacement : Memo,
      memo.perform (.replaceFromValue value) = (replacement, .done) ∧
      query.perform (.replaceFromValue value) = (⟨replacement⟩, .done) ∧
      replacement.keys.Pairwise (· < ·) ∧
      ∀ members, value = .object members → ∀ key path,
        (key, path) ∈ replacement.entries ↔ Stands members (key, .string path)) ∧
    (¬IsMapping value → ∃ rejection,
      memo.perform (.replaceFromValue value) = (memo, .rejected rejection) ∧
      query.perform (.replaceFromValue value) = (query, .rejected rejection) ∧
      (value.kind ≠ .object → rejection.found = kindName value) ∧
      ∀ members, value = .object members → ∃ fault, LeastFault members fault ∧
        rejection.found = kindName fault.2 ++ " for key '" ++ fault.1 ++ "'") := by
  constructor
  · intro hmapping
    obtain ⟨replacement, hvalue⟩ := exists_ofValue_iff.mpr hmapping
    refine ⟨replacement, ?_, ?_, keys_of_ofValue hvalue, ?_⟩
    · rw [perform, replaceFromValue, hvalue]
    · rw [Query.perform, hvalue]
    · rintro members rfl key path
      exact mem_entries_of_ofValue_iff hvalue
  · intro hmapping
    cases hvalue : ofValue value with
    | ok replacement => exact absurd (exists_ofValue_iff.mp ⟨replacement, hvalue⟩) hmapping
    | error rejection =>
      refine ⟨rejection, ?_, ?_, ?_, ?_⟩
      · rw [perform, replaceFromValue, hvalue]
      · rw [Query.perform, hvalue]
      · intro hkind
        cases value with
        | object members => exact absurd rfl hkind
        | _ =>
          cases hvalue
          rfl
      · rintro members rfl
        obtain ⟨fault, hleast, rfl⟩ := exists_leastFault hvalue
        refine ⟨fault, hleast, ?_⟩
        rw [← name_kind]
        rfl

/-- A fault that a later member takes the place of does no harm. Of three others the one with the
least key is reported, wherever it stands. A value that is no object is reported by its kind. -/
theorem perform_replaceFromValue_exact_of_faults :
    let memo : Memo := .ofList [("p", "//p")]
    let mapping : List (String × Value) :=
      [("b", .null), ("b", .string "//b"), ("a", .string "//a")]
    let faulty : List (String × Value) :=
      [("d", .array []), ("e", .string "//e"), ("c", .number "1"), ("b", .null),
        ("b", .string "//b"), ("f", .bool true)]
    (IsMapping (.object mapping) ∧ ∃ replacement : Memo,
      memo.perform (.replaceFromValue (.object mapping)) = (replacement, .done) ∧
      replacement.keys.Pairwise (· < ·) ∧ ("b", "//b") ∈ replacement.entries ∧
      ("p", "//p") ∉ replacement.entries) ∧
    ¬IsMapping (.object faulty) ∧ ∃ rejection,
      memo.perform (.replaceFromValue (.object faulty)) = (memo, .rejected rejection) ∧
      rejection.found = "number for key 'c'" ∧
      ∃ rejection, memo.perform (.replaceFromValue (.bool true)) = (memo, .rejected rejection) ∧
        rejection.found = "boolean" := by
  intro memo mapping faulty
  have hmapping (member : String × Value) : Stands mapping member ↔
      member ∈ [("b", Value.string "//b"), ("a", .string "//a")] := stands_iff
  have hfaulty (member : String × Value) : Stands faulty member ↔
      member ∈ [("d", .array []), ("e", .string "//e"), ("c", .number "1"),
        ("b", .string "//b"), ("f", .bool true)] := stands_iff
  have hnumber : Stands faulty ("c", .number "1") := (hfaulty _).mpr (by simp)
  have haccepted : IsMapping (.object mapping) := by
    refine ⟨mapping, rfl, ?_⟩
    simp [hmapping, Value.kind]
  have hrejected : ¬IsMapping (.object faulty) := by
    rintro ⟨members, hmembers, hstrings⟩
    cases hmembers
    exact absurd (hstrings _ hnumber) (by decide)
  obtain ⟨replacement, hdone, -, hkeys, hentries⟩ :=
    (perform_replaceFromValue_exact memo ⟨memo⟩ (.object mapping)).1 haccepted
  obtain ⟨rejection, hsame, -, -, hfault⟩ :=
    (perform_replaceFromValue_exact memo ⟨memo⟩ (.object faulty)).2 hrejected
  obtain ⟨fault, hleast, hfound⟩ := hfault faulty rfl
  obtain ⟨other, hother, -, hkind, -⟩ :=
    (perform_replaceFromValue_exact memo ⟨memo⟩ (.bool true)).2 (by rintro ⟨_, ⟨⟩, _⟩)
  have hbound : fault.1 ≤ "c" := hleast.least ("c", .number "1") hnumber (by decide)
  refine ⟨⟨haccepted, replacement, hdone, hkeys, ?_, ?_⟩, hrejected, rejection, hsame, ?_,
    other, hother, hkind (by decide)⟩
  · rw [hentries mapping rfl, hmapping]
    simp
  · rw [hentries mapping rfl, hmapping]
    simp
  · have hmem := (hfaulty fault).mp hleast.stands
    simp only [List.mem_cons, List.not_mem_nil, or_false] at hmem
    rcases hmem with rfl | rfl | rfl | rfl | rfl
    · exact absurd hbound (by decide)
    · exact absurd rfl hleast.not_string
    · exact hfound
    · exact absurd rfl hleast.not_string
    · exact absurd hbound (by decide)

end SelectorCompiler.Memo
