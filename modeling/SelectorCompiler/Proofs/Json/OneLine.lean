import SelectorCompiler.Proofs.Json.RoundTrip

/-!
# Compact texts stand on one line

Control characters are escaped wherever they occur in a string, and the compact layout adds none. So
the compact text of a value without numbers holds no character below U+0020, and no line feed in
particular, whatever its strings hold.

The main statement is `Value.newline_not_mem_compact`.
-/

namespace SelectorCompiler.Json

/-- The text holds no control character. -/
def ControlFree (text : List Char) : Prop := ∀ c ∈ text, 0x20 ≤ c.toNat

instance (text : List Char) : Decidable (ControlFree text) :=
  decidable_of_iff (text.all fun c ↦ 0x20 ≤ c.toNat) (by simp [ControlFree])

@[simp]
theorem controlFree_nil : ControlFree [] := List.forall_mem_nil _

@[simp]
theorem controlFree_cons {c : Char} {text : List Char} :
    ControlFree (c :: text) ↔ 0x20 ≤ c.toNat ∧ ControlFree text :=
  List.forall_mem_cons

@[simp]
theorem controlFree_append {text rest : List Char} :
    ControlFree (text ++ rest) ↔ ControlFree text ∧ ControlFree rest :=
  List.forall_mem_append

/-! ## Strings -/

private theorem controlFree_digitChar :
    ∀ n : Fin 32, ControlFree [Nat.digitChar (n.val / 16), Nat.digitChar (n.val % 16)] := by
  decide

/-- An escape is made of characters that need none. -/
theorem controlFree_escape (c : Char) : ControlFree (escape c) := by
  unfold escape
  split
  · decide
  split
  · decide
  split
  · decide
  split
  · decide
  split
  · decide
  split
  · decide
  split
  · decide
  split
  · next h =>
    have hdigits := controlFree_digitChar ⟨c.toNat, h⟩
    have hfront : ControlFree ['\\', 'u', '0', '0'] := by decide
    exact controlFree_append.mpr ⟨hfront, hdigits⟩
  · next hcontrol => simpa using hcontrol

theorem controlFree_quote (text : List Char) : ControlFree (quote text) := by
  have hbody : ControlFree (text.flatMap escape) := by
    intro c hc
    obtain ⟨source, -, hmem⟩ := List.mem_flatMap.mp hc
    exact controlFree_escape source c hmem
  have hmark : ControlFree ['"'] := by decide
  exact controlFree_append.mpr ⟨hmark, controlFree_append.mpr ⟨hbody, hmark⟩⟩

/-! ## Values -/

namespace Value

mutual

/-- Nothing but strings could bring a control character into a compact text. -/
theorem controlFree_write (depth : Nat) :
    ∀ value : Value, value.NumberFree → ControlFree (value.write .compact depth)
  | .null, _ => by rw [write]; decide
  | .bool true, _ => by rw [write]; decide
  | .bool false, _ => by rw [write]; decide
  | .number _, h => h.elim
  | .string text, _ => controlFree_quote text.toList
  | .array [], _ => by rw [write]; decide
  | .array (item :: items), h => by
    rw [write]
    simp only [Layout.compact, List.nil_append, List.append_nil, controlFree_cons,
      controlFree_append]
    exact ⟨by decide, ⟨controlFree_write _ item h.1, controlFree_writeItems _ items h.2⟩,
      by decide, controlFree_nil⟩
  | .object [], _ => by rw [write]; decide
  | .object ((key, value) :: members), h => by
    rw [write]
    simp only [Layout.compact, List.nil_append, List.append_nil, controlFree_cons,
      controlFree_append]
    exact ⟨by decide, ⟨⟨⟨controlFree_quote key.toList, by decide, controlFree_nil⟩,
      controlFree_write _ value h.1⟩, controlFree_writeMembers _ members h.2⟩,
      by decide, controlFree_nil⟩

theorem controlFree_writeItems (depth : Nat) :
    ∀ items : List Value, ItemsNumberFree items → ControlFree (writeItems .compact depth items)
  | [], _ => controlFree_nil
  | item :: items, h => by
    rw [writeItems]
    simp only [Layout.compact, List.nil_append, controlFree_cons, controlFree_append]
    exact ⟨by decide, controlFree_write _ item h.1, controlFree_writeItems _ items h.2⟩

theorem controlFree_writeMembers (depth : Nat) :
    ∀ members : List (String × Value), MembersNumberFree members →
      ControlFree (writeMembers .compact depth members)
  | [], _ => controlFree_nil
  | (key, value) :: members, h => by
    rw [writeMembers]
    simp only [Layout.compact, List.nil_append, controlFree_cons, controlFree_append]
    exact ⟨by decide, ⟨⟨controlFree_quote key.toList, by decide, controlFree_nil⟩,
      controlFree_write _ value h.1⟩, controlFree_writeMembers _ members h.2⟩

end

/-- The compact text of a value without numbers has no line break. -/
theorem newline_not_mem_compact {value : Value} (h : value.NumberFree) :
    '\n' ∉ value.compact.toList := by
  intro hmem
  rw [compact, String.toList_ofList] at hmem
  have hcontrol := controlFree_write 0 value h '\n' hmem
  simp at hcontrol

end Value

end SelectorCompiler.Json
