import Mathlib.Data.Set.Card
import SelectorCompiler.Proofs.Memo.Replacement

/-!
# A memo and its history

A memo is what its history says: everything before the last command that replaced it as a whole is
forgotten, and what was stored since then stands on top of the replacement. The value of a key, the
order of the keys, the size and the comparison of two memos are all read off the history.

What a command puts in the place of the memo is said by the entries or the members that it is given,
in `Command.Replaces`. One command replaces the memo, stores one entry or changes nothing, and
`perform_fst` says which. So a stretch of the history in which nothing replaces the memo is a
sequence of insertions, by `run_of_keeps`, and the laws of ordered maps give the rest.
-/

namespace SelectorCompiler.Memo

/-! ## Replacements -/

/-- The memo has these entries: the keys in the order in which they first occur, each with the last
of its values. -/
structure Lists (entries : List (String × String)) (memo : Memo) : Prop where
  keys : memo.keys = (entries.map Prod.fst).eraseDups
  entries : ∀ entry, entry ∈ memo.entries ↔ Stands entries entry

theorem ofList_eq_iff {entries : List (String × String)} {memo : Memo} :
    .ofList entries = memo ↔ Lists entries memo := by
  have hlists : Lists entries (.ofList entries) := by
    constructor
    · rw [OrderedMap.ofList, OrderedMap.keys_foldl, OrderedMap.keys_empty, List.removeAll_nil]
      rfl
    · intro entry
      exact OrderedMap.mem_entries_ofList_iff
  constructor
  · rintro rfl
    exact hlists
  · intro h
    apply OrderedMap.eq_of_keys_eq
    · rw [hlists.keys, h.keys]
    · intro entry
      rw [hlists.entries, h.entries]

/-- Member by member, an object of strings has its members as entries. -/
theorem ofDocument?_eq_some_iff {value : Json.Value} {memo : Memo} :
    ofDocument? value = some memo ↔
      ∃ entries, value = .object (entries.map fun entry ↦ (entry.1, .string entry.2)) ∧
        Lists entries memo := by
  constructor
  · intro h
    cases value with
    | object members =>
      rw [ofDocument?] at h
      cases hstrings : strings members with
      | error rejection =>
        rw [hstrings] at h
        cases h
      | ok entries =>
        rw [hstrings] at h
        exact ⟨entries, congrArg _ (map_of_strings_eq_ok hstrings),
          ofList_eq_iff.mp (Option.some.inj h)⟩
    | _ => cases h
  · rintro ⟨entries, rfl, hlists⟩
    rw [ofDocument?, strings_map, ← ofList_eq_iff.mpr hlists]
    rfl

/-- The command puts the memo in the place of any other one. A command that is refused puts none. -/
inductive Command.Replaces : Command → Memo → Prop where
  | clear : Replaces .clear .empty
  | replace {entries : List (String × String)} {memo : Memo} (hlists : Lists entries memo) :
    Replaces (.replace entries) memo
  | replaceFromValue {members : List (String × Json.Value)} {memo : Memo}
    (hmade : MadeOf members memo) : Replaces (.replaceFromValue (.object members)) memo
  | replaceFromText {text : String} {members : List (String × Json.Value)} {memo : Memo}
    (hparse : Json.Value.parse? text = some (.object members)) (hmade : MadeOf members memo) :
    Replaces (.replaceFromText text) memo
  | load {text : String} {entries : List (String × String)} {memo : Memo}
    (hparse : Json.Value.parse? text =
      some (.object (entries.map fun entry ↦ (entry.1, .string entry.2))))
    (hlists : Lists entries memo) : Replaces (.load text) memo

/-- The memo that the command puts in the place of any other one, computed. -/
def Command.replacement? : Command → Option Memo
  | .clear => some .empty
  | .replace entries => some (.ofList entries)
  | .replaceFromValue value => (ofValue value).toOption
  | .replaceFromText text => (Json.Value.parse? text).bind fun value ↦ (ofValue value).toOption
  | .load text => (Json.Value.parse? text).bind ofDocument?
  | _ => none

private theorem toOption_ofValue_eq_some_iff {value : Json.Value} {memo : Memo} :
    (ofValue value).toOption = some memo ↔
      ∃ members, value = .object members ∧ MadeOf members memo := by
  rw [← ofValue_eq_ok_iff]
  cases ofValue value <;> simp [Except.toOption]

theorem Command.replaces_iff {command : Command} {memo : Memo} :
    command.Replaces memo ↔ command.replacement? = some memo := by
  constructor
  · intro h
    cases h with
    | clear => rfl
    | replace hlists => exact congrArg some (ofList_eq_iff.mpr hlists)
    | replaceFromValue hmade => exact toOption_ofValue_eq_some_iff.mpr ⟨_, rfl, hmade⟩
    | replaceFromText hparse hmade =>
      rw [replacement?, hparse]
      exact toOption_ofValue_eq_some_iff.mpr ⟨_, rfl, hmade⟩
    | load hparse hlists =>
      rw [replacement?, hparse]
      exact ofDocument?_eq_some_iff.mpr ⟨_, rfl, hlists⟩
  · intro h
    cases command with
    | clear =>
      cases h
      exact .clear
    | replace entries => exact .replace (ofList_eq_iff.mp (Option.some.inj h))
    | replaceFromValue value =>
      rcases toOption_ofValue_eq_some_iff.mp h with ⟨members, rfl, hmade⟩
      exact .replaceFromValue hmade
    | replaceFromText text =>
      rcases Option.bind_eq_some_iff.mp h with ⟨value, hparse, hvalue⟩
      rcases toOption_ofValue_eq_some_iff.mp hvalue with ⟨members, rfl, hmade⟩
      exact .replaceFromText hparse hmade
    | load text =>
      rcases Option.bind_eq_some_iff.mp h with ⟨value, hparse, hvalue⟩
      rcases ofDocument?_eq_some_iff.mp hvalue with ⟨entries, rfl, hlists⟩
      exact .load hparse hlists
    | _ => cases h

theorem Command.replacement?_eq_none_iff {command : Command} :
    command.replacement? = none ↔ ∀ memo, ¬command.Replaces memo := by
  simp only [replaces_iff, Option.eq_none_iff_forall_ne_some, ne_eq]

/-! ## One command -/

/-- The entry that the command stores. -/
def Command.stored? : Command → Option (String × String)
  | .store selector path => some (selector, path)
  | _ => none

/-- The command was refused. -/
def Answer.IsRefusal : Answer → Prop
  | .rejected _ => True
  | .malformed => True
  | _ => False

/-- A command replaces the memo, stores an entry or leaves the memo as it is. -/
theorem perform_fst (memo : Memo) (command : Command) :
    (memo.perform command).1 =
      command.replacement?.getD
        (command.stored?.elim memo fun entry ↦ memo.insert entry.1 entry.2) := by
  have hvalue (value : Json.Value) :
      (memo.replaceFromValue value).1 = (ofValue value).toOption.getD memo := by
    rw [replaceFromValue]
    cases ofValue value <;> rfl
  cases command with
  | replaceFromValue value => exact hvalue value
  | replaceFromText text =>
    rw [perform, Command.replacement?]
    cases Json.Value.parse? text with
    | none => rfl
    | some value => exact hvalue value
  | load text =>
    rw [perform, Command.replacement?]
    cases (Json.Value.parse? text).bind ofDocument? <;> rfl
  | _ => rfl

/-- A command that is refused leaves the memo as it is. -/
theorem perform_fst_of_refusal {memo : Memo} {command : Command}
    (h : (memo.perform command).2.IsRefusal) : (memo.perform command).1 = memo := by
  have hvalue {value : Json.Value} (hrefused : (memo.replaceFromValue value).2.IsRefusal) :
      (memo.replaceFromValue value).1 = memo := by
    rw [replaceFromValue] at hrefused ⊢
    cases hread : ofValue value with
    | ok replacement =>
      rw [hread] at hrefused
      cases hrefused
    | error rejection => rfl
  cases command with
  | replaceFromValue value => exact hvalue h
  | replaceFromText text =>
    rw [perform] at h ⊢
    cases hparse : Json.Value.parse? text with
    | none => rfl
    | some value =>
      rw [hparse] at h
      exact hvalue h
  | load text =>
    rw [perform] at h ⊢
    cases hload : (Json.Value.parse? text).bind ofDocument? with
    | none => rfl
    | some loaded =>
      rw [hload] at h
      cases h
  | _ => cases h

/-! ## A history of commands -/

/-- The memo after commands that are performed one after another. -/
def run (memo : Memo) (commands : List Command) : Memo :=
  commands.foldl (fun memo command ↦ (memo.perform command).1) memo

/-- The last command of the history that replaced the memo gave `base`, and `later` came after it. A
history without such a command begins with the empty memo. -/
structure Since (commands : List Command) (base : Memo) (later : List Command) : Prop where
  base : commands = later ∧ base = .empty ∨
    ∃ front command, commands = front ++ command :: later ∧ command.Replaces base
  later : ∀ command ∈ later, ∀ memo, ¬command.Replaces memo

/-- The entries that commands store, in order. -/
def stored (commands : List Command) : List (String × String) :=
  commands.filterMap Command.stored?

theorem mem_stored_iff {commands : List Command} {key path : String} :
    (key, path) ∈ stored commands ↔ .store key path ∈ commands := by
  rw [stored, List.mem_filterMap]
  constructor
  · rintro ⟨command, hmem, hstored⟩
    cases command with
    | store selector text =>
      cases hstored
      exact hmem
    | _ => cases hstored
  · intro hmem
    exact ⟨_, hmem, rfl⟩

theorem key_mem_stored_iff {commands : List Command} {key : String} :
    key ∈ (stored commands).map Prod.fst ↔ ∃ path, .store key path ∈ commands := by
  rw [List.mem_map]
  constructor
  · rintro ⟨⟨_, path⟩, hmem, rfl⟩
    exact ⟨path, mem_stored_iff.mp hmem⟩
  · rintro ⟨path, hmem⟩
    exact ⟨(key, path), mem_stored_iff.mpr hmem, rfl⟩

/-- Every history has a last replacement, if only the empty memo it begins with. -/
theorem exists_since (commands : List Command) : ∃ base later, Since commands base later := by
  induction commands using List.reverseRecOn with
  | nil => exact ⟨.empty, [], .inl ⟨rfl, rfl⟩, by simp⟩
  | append_singleton front command ih =>
    cases hreplaced : command.replacement? with
    | some base =>
      have hbase := Command.replaces_iff.mpr hreplaced
      exact ⟨base, [], .inr ⟨front, command, rfl, hbase⟩, by simp⟩
    | none =>
      rcases ih with ⟨base, later, hbase, hlater⟩
      refine ⟨base, later ++ [command], ?_, ?_⟩
      · rcases hbase with ⟨rfl, hempty⟩ | ⟨earlier, replacing, rfl, hsome⟩
        · exact .inl ⟨rfl, hempty⟩
        · exact .inr ⟨earlier, replacing, by simp, hsome⟩
      · intro other hother
        rcases List.mem_append.mp hother with hmem | hmem
        · exact hlater other hmem
        · rw [List.mem_singleton.mp hmem]
          exact Command.replacement?_eq_none_iff.mp hreplaced

/-- Commands that do not replace the memo insert what they store. -/
theorem run_of_keeps {commands : List Command}
    (h : ∀ command ∈ commands, ∀ memo, ¬command.Replaces memo) (memo : Memo) :
    memo.run commands =
      (stored commands).foldl (fun memo entry ↦ memo.insert entry.1 entry.2) memo := by
  induction commands generalizing memo with
  | nil => rfl
  | cons command rest ih =>
    rcases List.forall_mem_cons.mp h with ⟨hcommand, hrest⟩
    have hstep := memo.perform_fst command
    rw [Command.replacement?_eq_none_iff.mpr hcommand, Option.getD_none] at hstep
    change ((memo.perform command).1).run rest = _
    rw [ih hrest, hstep, stored, stored]
    cases hstored : command.stored? with
    | none => rw [List.filterMap_cons_none hstored, Option.elim_none]
    | some entry => rw [List.filterMap_cons_some hstored, Option.elim_some, List.foldl_cons]

/-- The commands before the last replacement have no part in the memo. -/
theorem Since.run_eq {commands later : List Command} {base : Memo}
    (h : Since commands base later) : run .empty commands = base.run later := by
  rcases h.base with ⟨rfl, rfl⟩ | ⟨front, command, rfl, hreplaced⟩
  · rfl
  · have hstep := (run .empty front).perform_fst command
    rw [Command.replaces_iff.mp hreplaced, Option.getD_some] at hstep
    rw [run, List.foldl_append, List.foldl_cons]
    change run ((run .empty front).perform command).1 later = _
    rw [hstep]

/-! ## What the history says -/

section Since

variable {commands later : List Command} {base : Memo} (h : Since commands base later)
include h

/-- A key has the value that it was last given since the replacement. -/
theorem Since.get?_of_last {key path : String} {front rest : List Command}
    (hlater : later = front ++ .store key path :: rest) (hlast : ∀ other, .store key other ∉ rest) :
    (run .empty commands).get? key = some path := by
  have hstored : stored later = stored front ++ (key, path) :: stored rest := by
    rw [hlater, stored, List.filterMap_append]
    rfl
  rw [h.run_eq, run_of_keeps h.later, hstored]
  apply OrderedMap.get?_foldl_of_last
  rw [key_mem_stored_iff]
  rintro ⟨other, hmem⟩
  exact hlast other hmem

/-- A key that was given no value since then has the one of the replacement, if any. -/
theorem Since.get?_of_not_stored {key : String} (hnone : ∀ path, .store key path ∉ later) :
    (run .empty commands).get? key = base.get? key := by
  rw [h.run_eq, run_of_keeps h.later]
  apply OrderedMap.get?_foldl_of_not_mem
  rw [key_mem_stored_iff]
  rintro ⟨path, hmem⟩
  exact hnone path hmem

theorem Since.keys_run :
    (run .empty commands).keys =
      base.keys ++ (((stored later).map Prod.fst).removeAll base.keys).eraseDups := by
  rw [h.run_eq, run_of_keeps h.later, OrderedMap.keys_foldl]

end Since

/-- There are as many keys with a value as entries. -/
theorem encard_get? (memo : Memo) : {key | memo.get? key ≠ none}.encard = memo.size := by
  have hkeys : {key | memo.get? key ≠ none} = (memo.keys.toFinset : Set String) := by
    ext key
    simp [OrderedMap.get?_eq_none_iff]
  have hdistinct : memo.keys.Nodup := memo.distinct
  have hsize : memo.keys.length = memo.size := List.length_map Prod.fst
  rw [hkeys, Set.encard_coe_eq_coe_finsetCard, List.toFinset_card_of_nodup hdistinct, hsize]

theorem isEmpty_iff_size (memo : Memo) : memo.isEmpty = true ↔ memo.size = 0 :=
  List.isEmpty_iff_length_eq_zero

end SelectorCompiler.Memo
