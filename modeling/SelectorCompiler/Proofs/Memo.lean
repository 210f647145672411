import SelectorCompiler.Proofs.Json.RoundTrip
import SelectorCompiler.Proofs.Query.Transparency

/-!
# Memos in JSON

A memo is written as an object of strings. Its text is read back as that object, and the object is
accepted as a memo with no other entries. The text of a memo file is spelled out in `fileText`.
-/

namespace SelectorCompiler.Memo

open Json

/-- The text of a memo is read back, in any layout. -/
theorem parse?_write_toValue (memo : Memo) {layout : Layout} (hlayout : layout.Spaced) :
    Value.parse? (String.ofList (memo.toValue.write layout 0)) = some memo.toValue := by
  have hdepth : Value.membersDepth
      (memo.entries.map fun entry ↦ (entry.1, Value.string entry.2)) ≤ 0 := by
    rw [Value.membersDepth_le_iff, List.forall_mem_map]
    intro entry _
    exact Nat.le_refl 0
  apply Value.parse?_write hlayout
  · rw [toValue, Value.NumberFree, Value.membersNumberFree_iff, List.forall_mem_map]
    intro entry _
    trivial
  · rw [toValue, Value.depth, maxDepth]
    omega

/-- The members of a memo are read as its entries. -/
theorem strings_map (entries : List (String × String)) :
    strings (entries.map fun entry ↦ (entry.1, .string entry.2)) = .ok entries := by
  induction entries with
  | nil => rfl
  | cons entry rest ih =>
    rw [List.map_cons, strings, ih]
    rfl

/-- In the order of the document, a memo is read back as it is. -/
theorem ofDocument?_toValue (memo : Memo) : ofDocument? memo.toValue = some memo := by
  rw [toValue, ofDocument?, strings_map]
  exact congrArg some memo.ofList_entries

/-- Different memos have different texts. -/
theorem pretty_toValue_inj {memo other : Memo} (h : memo.toValue.pretty = other.toValue.pretty) :
    memo = other := by
  have hvalue : some memo.toValue = some other.toValue := by
    rw [← memo.parse?_write_toValue Layout.spaced_indented,
      ← other.parse?_write_toValue Layout.spaced_indented]
    exact congrArg Value.parse? h
  have hmemo := congrArg (Option.bind · ofDocument?) hvalue
  simpa [ofDocument?_toValue] using hmemo

/-- As a value, a memo is read back with its entries sorted. -/
theorem ofValue_toValue (memo : Memo) : ofValue memo.toValue = .ok memo.sorted := by
  have hkeys : ((memo.entries.map fun entry ↦ (entry.1, Value.string entry.2)).map
      Prod.fst).Nodup := by
    rw [List.map_map]
    exact memo.distinct
  have hsorted : (OrderedMap.ofList (memo.entries.map
      fun entry ↦ (entry.1, Value.string entry.2))).sorted.entries =
        memo.sorted.entries.map fun entry ↦ (entry.1, .string entry.2) := by
    rw [OrderedMap.entries_sorted, OrderedMap.entries_ofList hkeys, OrderedMap.entries_sorted]
    symm
    apply List.map_mergeSort
    intro a _ b _
    rfl
  rw [toValue, ofValue, hsorted, strings_map]
  exact congrArg Except.ok memo.sorted.ofList_entries

/-! ## The text of a memo file -/

/-- The line of an entry, two spaces deep. -/
def entryLine (entry : String × String) : String :=
  "  " ++ quoted entry.1 ++ ": " ++ quoted entry.2

/-- The text of a memo file: a brace on a line of its own, a line for each entry with a comma behind
all but the last, and the other brace. Without entries there are only the braces. -/
def fileText (memo : Memo) : String :=
  if memo.entries = [] then "\x7b\x7d"
  else "\x7b\n" ++ String.intercalate ",\n" (memo.entries.map entryLine) ++ "\n\x7d"

private theorem toList_intercalate_entryLine (entry : String × String)
    (rest : List (String × String)) :
    (String.intercalate ",\n" ((entry :: rest).map entryLine)).toList =
      (entryLine entry).toList ++
        Value.writeMembers .indented 1 (rest.map fun entry ↦ (entry.1, .string entry.2)) := by
  induction rest generalizing entry with
  | nil => simp [Value.writeMembers]
  | cons next rest ih =>
    have hnext := ih next
    rw [List.map_cons] at hnext
    rw [List.map_cons, List.map_cons, List.map_cons, String.intercalate_cons_cons,
      String.toList_append, hnext]
    simp [Value.writeMembers, Value.write, entryLine, quoted, Layout.indented]

/-- A memo is written line by line. -/
theorem pretty_toValue (memo : Memo) : memo.toValue.pretty = memo.fileText := by
  rw [fileText, toValue, Value.pretty, ← String.toList_inj, String.toList_ofList]
  cases memo.entries with
  | nil => simp [Value.write]
  | cons entry rest =>
    rw [if_neg (List.cons_ne_nil _ _), String.toList_append, String.toList_append,
      toList_intercalate_entryLine, List.map_cons, Value.write]
    simp [Value.write, entryLine, quoted, Layout.indented]

/-- The text of a memo file is read back as the memo. -/
theorem ofDocument?_fileText (memo : Memo) :
    (Value.parse? memo.fileText).bind ofDocument? = some memo := by
  have hparse : Value.parse? memo.toValue.pretty = some memo.toValue :=
    memo.parse?_write_toValue Layout.spaced_indented
  rw [← pretty_toValue, hparse]
  exact memo.ofDocument?_toValue

end SelectorCompiler.Memo
