/-!
# Numerals

The numbers of a JSON text: an optional minus sign, digits without a leading zero, an optional
fraction and an optional exponent. A numeral is accepted when a double can hold it. Its size is
measured the way a 64-bit reader does it: as many digits as fit into 64 bits make the significand,
which is rounded to a double and multiplied by a power of ten that is a double too.
-/

namespace SelectorCompiler.Json

/-- The exponent of a numeral. -/
structure Exponent where
  /-- `e` or `E`. -/
  mark : Char
  /-- The sign, if one is written. -/
  sign : Option Char
  /-- The digits. -/
  digits : List Char
deriving DecidableEq, Repr

/-- A numeral, cut into its parts. -/
structure Numeral where
  /-- A minus sign stands in front. -/
  minus : Bool
  /-- The digits before the point. -/
  whole : List Char
  /-- The digits after the point; none when there is no point. -/
  fraction : List Char
  /-- The exponent. -/
  exponent : Option Exponent
deriving DecidableEq, Repr

/-- The text of an exponent. -/
def Exponent.text (exponent : Exponent) : List Char :=
  exponent.mark :: (exponent.sign.toList ++ exponent.digits)

/-- The text of a numeral. -/
def Numeral.text (numeral : Numeral) : List Char :=
  (if numeral.minus then ['-'] else []) ++ numeral.whole ++
    (if numeral.fraction.isEmpty then [] else '.' :: numeral.fraction) ++
    (numeral.exponent.map Exponent.text).getD []

/-! ## Reading -/

/-- A run of digits with at least one digit. -/
def readDigits (text : List Char) : Option (List Char × List Char) :=
  match text.takeWhile Char.isDigit with
  | [] => none
  | digits => some (digits, text.dropWhile Char.isDigit)

/-- A minus sign, if there is one. -/
def readMinus : List Char → Bool × List Char
  | '-' :: text => (true, text)
  | text => (false, text)

/-- The digits before the point; a zero stands alone. -/
def readWhole : List Char → Option (List Char × List Char)
  | '0' :: text => some (['0'], text)
  | text => readDigits text

/-- The digits after a point. -/
def readFraction : List Char → Option (List Char × List Char)
  | '.' :: text => readDigits text
  | text => some ([], text)

/-- The sign of an exponent, if there is one. -/
def readSign : List Char → Option Char × List Char
  | '+' :: text => (some '+', text)
  | '-' :: text => (some '-', text)
  | text => (none, text)

/-- An exponent, if there is one. -/
def readExponent : List Char → Option (Option Exponent × List Char)
  | [] => some (none, [])
  | mark :: text =>
    if mark = 'e' ∨ mark = 'E' then
      let signed := readSign text
      (readDigits signed.2).map fun read ↦ (some ⟨mark, signed.1, read.1⟩, read.2)
    else some (none, mark :: text)

/-- A numeral at the front of a text, and what follows it. -/
def Numeral.read? (text : List Char) : Option (Numeral × List Char) := do
  let minus := readMinus text
  let whole ← readWhole minus.2
  let fraction ← readFraction whole.2
  let exponent ← readExponent fraction.2
  return (⟨minus.1, whole.1, fraction.1, exponent.1⟩, exponent.2)

/-! ## Range -/

/-- The number that a run of digits spells. -/
def digitsValue (digits : List Char) : Nat :=
  digits.foldl (fun value digit ↦ value * 10 + (digit.toNat - '0'.toNat)) 0

/-- Append digits to a significand as long as it stays below 2^64; also the digits left over. -/
def absorb (significand : Nat) : List Char → Nat × List Char
  | [] => (significand, [])
  | digit :: digits =>
    let next := significand * 10 + (digit.toNat - '0'.toNat)
    if next < Nat.pow 2 64 then absorb next digits else (significand, digit :: digits)

/-- The nearest number with at most 53 significant bits, of two nearest ones the even one. -/
def roundToDouble (n : Nat) : Nat :=
  let unit := Nat.pow 2 (n.log2 + 1 - 53)
  let quotient := n / unit
  let twice := 2 * (n % unit)
  if unit < twice ∨ (twice = unit ∧ quotient % 2 = 1) then (quotient + 1) * unit
  else quotient * unit

/-- The signed value of an exponent. -/
def Exponent.value (exponent : Exponent) : Int :=
  if exponent.sign = some '-' then -(digitsValue exponent.digits : Int)
  else digitsValue exponent.digits

/-- The largest power of ten that is a double. -/
def maxPower : Nat := 308

/-- The least number that rounds to infinity: the largest double and half a unit in its last
place. -/
def infinityBound : Nat := Nat.pow 2 1024 - Nat.pow 2 970

/-- A significand times a power of ten is a finite double. -/
def isFinite (significand : Nat) (power : Int) : Bool :=
  significand == 0 || power < 0 ||
    (power ≤ maxPower &&
      roundToDouble significand * roundToDouble (Nat.pow 10 power.toNat) < infinityBound)

/-- A double can hold the numeral. Digits beyond those of the significand count before the point as
further powers of ten, and after it not at all. -/
def Numeral.inRange (numeral : Numeral) : Bool :=
  let whole := absorb 0 numeral.whole
  let all := absorb whole.1 numeral.fraction
  let scale : Int := (numeral.exponent.map Exponent.value).getD 0
  isFinite all.1 (whole.2.length - (numeral.fraction.length - all.2.length : Int) + scale)

/-! ## Progress -/

private theorem length_lt_of_readDigits {text digits rest : List Char}
    (h : readDigits text = some (digits, rest)) : rest.length < text.length := by
  unfold readDigits at h
  split at h
  · simp at h
  · next hrun =>
    simp only [Option.some.injEq, Prod.mk.injEq] at h
    obtain ⟨rfl, rfl⟩ := h
    have hlen := congrArg List.length
      (List.takeWhile_append_dropWhile (p := Char.isDigit) (l := text))
    have hpos := List.length_pos_iff.mpr hrun
    simp only [List.length_append] at hlen
    omega

private theorem length_le_readMinus (text : List Char) :
    (readMinus text).2.length ≤ text.length := by
  unfold readMinus
  split <;> simp

private theorem length_lt_of_readWhole {text digits rest : List Char}
    (h : readWhole text = some (digits, rest)) : rest.length < text.length := by
  unfold readWhole at h
  split at h
  · simp only [Option.some.injEq, Prod.mk.injEq] at h
    obtain ⟨_, rfl⟩ := h
    simp
  · exact length_lt_of_readDigits h

private theorem length_le_of_readFraction {text digits rest : List Char}
    (h : readFraction text = some (digits, rest)) : rest.length ≤ text.length := by
  unfold readFraction at h
  split at h
  · have := length_lt_of_readDigits h
    simp only [List.length_cons]
    omega
  · simp only [Option.some.injEq, Prod.mk.injEq] at h
    obtain ⟨_, rfl⟩ := h
    exact Nat.le_refl _

private theorem length_le_readSign (text : List Char) :
    (readSign text).2.length ≤ text.length := by
  unfold readSign
  split <;> simp

private theorem length_le_of_readExponent {text rest : List Char} {exponent : Option Exponent}
    (h : readExponent text = some (exponent, rest)) : rest.length ≤ text.length := by
  unfold readExponent at h
  split at h
  · simp only [Option.some.injEq, Prod.mk.injEq] at h
    obtain ⟨_, rfl⟩ := h
    exact Nat.le_refl _
  · next mark tail =>
    split at h
    · obtain ⟨read, hread, hpair⟩ := Option.map_eq_some_iff.mp h
      simp only [Prod.mk.injEq] at hpair
      obtain ⟨_, rfl⟩ := hpair
      have hlt := length_lt_of_readDigits hread
      have hle := length_le_readSign tail
      simp only [List.length_cons]
      omega
    · simp only [Option.some.injEq, Prod.mk.injEq] at h
      obtain ⟨_, rfl⟩ := h
      exact Nat.le_refl _

/-- A numeral takes at least one character. -/
theorem Numeral.length_lt_of_read? {text rest : List Char} {numeral : Numeral}
    (h : Numeral.read? text = some (numeral, rest)) : rest.length < text.length := by
  simp only [Numeral.read?, bind, Option.bind_eq_some_iff, pure, Option.some.injEq,
    Prod.mk.injEq] at h
  obtain ⟨whole, hwhole, fraction, hfraction, exponent, hexponent, _, rfl⟩ := h
  have h1 := length_le_readMinus text
  have h2 := length_lt_of_readWhole hwhole
  have h3 := length_le_of_readFraction hfraction
  have h4 := length_le_of_readExponent hexponent
  omega

end SelectorCompiler.Json
