/-!
# Quoted strings

A string is written between quotation marks. The marks, the backslash and the control characters
below U+0020 are escaped; every other character stands for itself. Reading accepts every escape of
the format, with surrogate pairs for the characters beyond U+FFFF.

The main statement is `unquote?_flatMap_escape`: reading gives back what was written.
-/

namespace SelectorCompiler.Json

/-! ## Writing -/

/-- A character as it stands between quotation marks. -/
def escape (c : Char) : List Char :=
  if c = '"' then ['\\', '"']
  else if c = '\\' then ['\\', '\\']
  else if c = '\x08' then ['\\', 'b']
  else if c = '\x09' then ['\\', 't']
  else if c = '\x0a' then ['\\', 'n']
  else if c = '\x0c' then ['\\', 'f']
  else if c = '\x0d' then ['\\', 'r']
  else if c.toNat < 0x20 then
    ['\\', 'u', '0', '0', Nat.digitChar (c.toNat / 16), Nat.digitChar (c.toNat % 16)]
  else [c]

/-- A text between quotation marks. -/
def quote (text : List Char) : List Char :=
  '"' :: (text.flatMap escape ++ ['"'])

/-! ## Reading -/

/-- The value of a hexadecimal digit in either case. -/
def hexValue? (c : Char) : Option Nat :=
  if '0' ≤ c ∧ c ≤ '9' then some (c.toNat - '0'.toNat)
  else if 'a' ≤ c ∧ c ≤ 'f' then some (c.toNat - 'a'.toNat + 10)
  else if 'A' ≤ c ∧ c ≤ 'F' then some (c.toNat - 'A'.toNat + 10)
  else none

/-- The code unit that four hexadecimal digits spell. -/
def readUnit : List Char → Option (Nat × List Char)
  | a :: b :: c :: d :: rest =>
    match hexValue? a, hexValue? b, hexValue? c, hexValue? d with
    | some a, some b, some c, some d => some (((a * 16 + b) * 16 + c) * 16 + d, rest)
    | _, _, _, _ => none
  | _ => none

/-- The code unit begins a surrogate pair. -/
def isLeading (unit : Nat) : Bool := 0xD800 ≤ unit && unit ≤ 0xDBFF

/-- The code unit ends a surrogate pair. -/
def isTrailing (unit : Nat) : Bool := 0xDC00 ≤ unit && unit ≤ 0xDFFF

/-- The code unit after `\u`. -/
def readTrailing : List Char → Option (Nat × List Char)
  | '\\' :: 'u' :: text => readUnit text
  | _ => none

/-- The character of one code unit, or of a surrogate pair. A surrogate without its partner is no
character. -/
def readCodePoint (text : List Char) : Option (Char × List Char) :=
  match readUnit text with
  | none => none
  | some (unit, rest) =>
    if isLeading unit then
      match readTrailing rest with
      | none => none
      | some (second, rest) =>
        if isTrailing second then
          some (Char.ofNat (0x10000 + (unit - 0xD800) * 0x400 + (second - 0xDC00)), rest)
        else none
    else if isTrailing unit then none
    else some (Char.ofNat unit, rest)

/-- The character of an escape, read after its backslash. -/
def readEscape : List Char → Option (Char × List Char)
  | '"' :: rest => some ('"', rest)
  | '\\' :: rest => some ('\\', rest)
  | '/' :: rest => some ('/', rest)
  | 'b' :: rest => some ('\x08', rest)
  | 't' :: rest => some ('\x09', rest)
  | 'n' :: rest => some ('\x0a', rest)
  | 'f' :: rest => some ('\x0c', rest)
  | 'r' :: rest => some ('\x0d', rest)
  | 'u' :: rest => readCodePoint rest
  | _ => none

private theorem length_lt_of_readUnit {text rest : List Char} {unit : Nat}
    (h : readUnit text = some (unit, rest)) : rest.length < text.length := by
  unfold readUnit at h
  split at h
  · split at h
    · simp only [Option.some.injEq, Prod.mk.injEq] at h
      obtain ⟨_, rfl⟩ := h
      simp only [List.length_cons]
      omega
    · simp at h
  · simp at h

private theorem length_lt_of_readTrailing {text rest : List Char} {unit : Nat}
    (h : readTrailing text = some (unit, rest)) : rest.length < text.length := by
  unfold readTrailing at h
  split at h
  · have := length_lt_of_readUnit h
    simp only [List.length_cons]
    omega
  · simp at h

private theorem length_lt_of_readCodePoint {text rest : List Char} {c : Char}
    (h : readCodePoint text = some (c, rest)) : rest.length < text.length := by
  unfold readCodePoint at h
  split at h
  · simp at h
  · next hunit =>
    have hlt := length_lt_of_readUnit hunit
    split at h
    · split at h
      · simp at h
      · next hsecond =>
        have hlt' := length_lt_of_readTrailing hsecond
        split at h
        · simp only [Option.some.injEq, Prod.mk.injEq] at h
          obtain ⟨_, rfl⟩ := h
          omega
        · simp at h
    · split at h
      · simp at h
      · simp only [Option.some.injEq, Prod.mk.injEq] at h
        obtain ⟨_, rfl⟩ := h
        exact hlt

/-- An escape takes at least one character. -/
theorem length_lt_of_readEscape {text rest : List Char} {c : Char}
    (h : readEscape text = some (c, rest)) : rest.length < text.length := by
  unfold readEscape at h
  split at h
  case h_9 =>
    have := length_lt_of_readCodePoint h
    simp only [List.length_cons]
    omega
  case h_10 => simp at h
  all_goals
    simp only [Option.some.injEq, Prod.mk.injEq] at h
    obtain ⟨_, rfl⟩ := h
    simp

/-- The text up to the closing quotation mark, read after the opening one, and what follows. -/
def unquote? : List Char → Option (List Char × List Char)
  | [] => none
  | '"' :: rest => some ([], rest)
  | '\\' :: text =>
    match _h : readEscape text with
    | none => none
    | some (c, rest) => (unquote? rest).map fun read ↦ (c :: read.1, read.2)
  | c :: text =>
    if c.toNat < 0x20 then none
    else (unquote? text).map fun read ↦ (c :: read.1, read.2)
termination_by text => text.length
decreasing_by
  · have := length_lt_of_readEscape _h
    simp only [List.length_cons]
    omega
  · simp

/-- A quoted string takes at least its closing mark. -/
theorem length_lt_of_unquote? {text body rest : List Char}
    (h : unquote? text = some (body, rest)) : rest.length < text.length := by
  fun_induction unquote? text generalizing body with
  | case1 => simp at h
  | case2 =>
    simp only [Option.some.injEq, Prod.mk.injEq] at h
    obtain ⟨_, rfl⟩ := h
    simp
  | case3 => simp at h
  | case4 text c tail hescape ih =>
    obtain ⟨⟨later, final⟩, hread, hpair⟩ := Option.map_eq_some_iff.mp h
    simp only [Prod.mk.injEq] at hpair
    obtain ⟨_, rfl⟩ := hpair
    have := ih hread
    have := length_lt_of_readEscape hescape
    simp only [List.length_cons]
    omega
  | case5 => simp at h
  | case6 c text _ _ _ ih =>
    obtain ⟨⟨later, final⟩, hread, hpair⟩ := Option.map_eq_some_iff.mp h
    simp only [Prod.mk.injEq] at hpair
    obtain ⟨_, rfl⟩ := hpair
    have := ih hread
    simp only [List.length_cons]
    omega

/-! ## Reading what was written -/

private theorem unquote?_plain {c : Char} {text : List Char} (hmark : c ≠ '"') (hslash : c ≠ '\\')
    (hcontrol : 0x20 ≤ c.toNat) :
    unquote? (c :: text) = (unquote? text).map fun read ↦ (c :: read.1, read.2) := by
  rw [unquote?]
  · rw [if_neg (by omega)]
  · simpa using hmark
  · simpa using hslash

private theorem unquote?_escaped {c : Char} {text rest : List Char}
    (h : readEscape text = some (c, rest)) :
    unquote? ('\\' :: text) = (unquote? rest).map fun read ↦ (c :: read.1, read.2) := by
  rw [unquote?]
  split
  · next hnone =>
    rw [h] at hnone
    cases hnone
  · next hsome =>
    rw [h] at hsome
    cases hsome
    rfl

private theorem hexValue?_digitChar :
    ∀ n : Fin 32, hexValue? (Nat.digitChar (n.val / 16)) = some (n.val / 16) ∧
      hexValue? (Nat.digitChar (n.val % 16)) = some (n.val % 16) := by
  decide

private theorem readEscape_control (n : Fin 32) (rest : List Char) :
    readEscape ('u' :: '0' :: '0' :: Nat.digitChar (n.val / 16) :: Nat.digitChar (n.val % 16) ::
      rest) = some (Char.ofNat n.val, rest) := by
  have hzero : hexValue? '0' = some 0 := by decide
  have hvalue : ((0 * 16 + 0) * 16 + n.val / 16) * 16 + n.val % 16 = n.val := by omega
  have hleading : isLeading n.val = false := by
    simp only [isLeading, Bool.and_eq_false_iff, decide_eq_false_iff_not]
    omega
  have htrailing : isTrailing n.val = false := by
    simp only [isTrailing, Bool.and_eq_false_iff, decide_eq_false_iff_not]
    omega
  simp only [readEscape, readCodePoint, readUnit, hzero, hexValue?_digitChar n, hvalue]
  simp [hleading, htrailing]

/-- An escaped character is read back, whatever follows it. -/
theorem unquote?_escape (c : Char) (text : List Char) :
    unquote? (escape c ++ text) = (unquote? text).map fun read ↦ (c :: read.1, read.2) := by
  unfold escape
  split
  · next h => subst h; exact unquote?_escaped rfl
  split
  · next h => subst h; exact unquote?_escaped rfl
  split
  · next h => subst h; exact unquote?_escaped rfl
  split
  · next h => subst h; exact unquote?_escaped rfl
  split
  · next h => subst h; exact unquote?_escaped rfl
  split
  · next h => subst h; exact unquote?_escaped rfl
  split
  · next h => subst h; exact unquote?_escaped rfl
  split
  · next h =>
    have hread := readEscape_control ⟨c.toNat, h⟩ text
    rw [Char.ofNat_toNat] at hread
    exact unquote?_escaped hread
  · next hmark hslash _ _ _ _ _ hcontrol => exact unquote?_plain hmark hslash (by omega)

/-- A text between quotation marks is read back, whatever follows the closing one. -/
theorem unquote?_flatMap_escape (text rest : List Char) :
    unquote? (text.flatMap escape ++ '"' :: rest) = some (text, rest) := by
  induction text with
  | nil => simp [unquote?]
  | cons c text ih => simp [List.flatMap_cons, unquote?_escape, ih]

end SelectorCompiler.Json
