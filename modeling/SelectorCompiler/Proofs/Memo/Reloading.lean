import SelectorCompiler.CommandLine.Run
import SelectorCompiler.Memo.Command
import SelectorCompiler.Proofs.Memo

/-!
# Memos survive their text

A memo is written as JSON in two layouts, and read in two ways. Read member by member it is the same
memo again. Read as a value, its entries come in the order of their keys, which is the order that
every later reading finds: so the text of a memo changes at most once, however often a run loads it
and writes it back.

Nothing is asked of the keys and the paths. They may hold any character, since each is escaped on
its own.
-/

namespace SelectorCompiler

/-! ## One reading -/

namespace Memo

/-- Sorting changes nothing but the order. -/
theorem sameEntries_sorted (memo : Memo) : memo.sorted.sameEntries memo = true := by
  rw [OrderedMap.sameEntries_iff]
  intro key
  apply Option.ext
  intro path
  rw [OrderedMap.get?_eq_some_iff, OrderedMap.get?_eq_some_iff, OrderedMap.mem_entries_sorted]

theorem sorted_sorted (memo : Memo) : memo.sorted.sorted = memo.sorted :=
  OrderedMap.sorted_of_pairwise memo.pairwise_keys_sorted

variable {memo : Memo} {text : String} (h : Json.Value.parse? text = some memo.toValue)
include h

/-- A text that spells a memo replaces any other memo by it, in the order of the text. -/
theorem perform_load (prior : Memo) : prior.perform (.load text) = (memo, .done) := by
  simp only [perform, h, Option.bind_some, ofDocument?_toValue]

/-- As a value it replaces any other memo by the sorted one. -/
theorem perform_replaceFromText (prior : Memo) :
    prior.perform (.replaceFromText text) = (memo.sorted, .done) := by
  simp only [perform, h, replaceFromValue, ofValue_toValue]

/-- A run that finds the text in its memo file begins with the sorted memo. -/
theorem begin_eq_start (path : String) :
    CommandLine.begin path (.ok text) = .ok (.start memo.sorted) := by
  simp only [CommandLine.begin, h, ofValue_toValue]

end Memo

/-! ## Reading after reading -/

namespace CommandLine

/-- What a run that compiles nothing makes of the text in its memo file: it loads the memo and
writes it back. -/
def resave (path text : String) : Except Failure String :=
  (begin path (.ok text)).map fun progress ↦ progress.query.memo.toValue.pretty

/-- Load and write back so many times. -/
def resaves (path : String) : Nat → String → Except Failure String
  | 0, text => .ok text
  | count + 1, text => (resave path text).bind (resaves path count)

variable {memo : Memo} {text : String}

theorem resave_eq (h : Json.Value.parse? text = some memo.toValue) (path : String) :
    resave path text = .ok (Memo.toValue memo.sorted).pretty := by
  rw [resave, Memo.begin_eq_start h]
  rfl

/-- After the first time the text stays. -/
theorem resaves_eq (h : Json.Value.parse? text = some memo.toValue) (path : String) (count : Nat) :
    resaves path (count + 1) text = .ok (Memo.toValue memo.sorted).pretty := by
  induction count generalizing memo text with
  | zero =>
    rw [resaves, resave_eq h]
    rfl
  | succ count ih =>
    have hsaved := Memo.parse?_write_toValue memo.sorted Json.Layout.spaced_indented
    have hlater : resaves path (count + 1) (Memo.toValue memo.sorted).pretty = _ := ih hsaved
    rw [resaves, resave_eq h, Except.bind, hlater, memo.sorted_sorted]

end CommandLine

namespace Memo

/-- Both texts of a memo give it back. Read member by member they replace any memo by exactly this
one, in the same order; read as a value, by the same entries in increasing order of their keys. A
run that loads the text and writes it back sorts it, and from then on the text stays as it is. -/
theorem perform_reload (memo prior : Memo) {write : Command}
    (hwrite : write = .writeCompact ∨ write = .writePretty) :
    ∃ text, memo.perform write = (memo, .text text) ∧
      prior.perform (.load text) = (memo, .done) ∧
      prior.perform (.replaceFromText text) = (memo.sorted, .done) ∧
      memo.sorted.entries.Perm memo.entries ∧ memo.sorted.keys.Pairwise (· < ·) ∧
      memo.sorted.sameEntries memo = true ∧
      ∀ path count,
        CommandLine.resaves path (count + 1) text = .ok (toValue memo.sorted).pretty := by
  obtain ⟨text, htext, hparse⟩ : ∃ text, memo.perform write = (memo, .text text) ∧
      Json.Value.parse? text = some memo.toValue := by
    rcases hwrite with rfl | rfl
    · exact ⟨_, rfl, memo.parse?_write_toValue Json.Layout.spaced_compact⟩
    · exact ⟨_, rfl, memo.parse?_write_toValue Json.Layout.spaced_indented⟩
  exact ⟨text, htext, perform_load hparse prior, perform_replaceFromText hparse prior,
    memo.entries_sorted_perm, memo.pairwise_keys_sorted, memo.sameEntries_sorted,
    CommandLine.resaves_eq hparse⟩

/-- Keys out of order, a quotation mark and a backslash, the control characters U+0000 and U+000A,
and a character beyond U+FFFF. -/
theorem perform_reload_of_marks :
    let memo : Memo := .ofList [("b\"\\", "\x00\n"), ("a", "😀")]
    memo.perform .writeCompact =
        (memo, .text "\x7b\"b\\\"\\\\\":\"\\u0000\\n\",\"a\":\"😀\"\x7d") ∧
      ∃ text, memo.perform .writeCompact = (memo, .text text) ∧
        perform .empty (.load text) = (memo, .done) ∧
        perform .empty (.replaceFromText text) = (memo.sorted, .done) := by
  intro memo
  obtain ⟨text, htext, hload, hreplace, -⟩ := memo.perform_reload .empty (.inl rfl)
  exact ⟨by decide +kernel, text, htext, hload, hreplace⟩

end Memo

end SelectorCompiler
