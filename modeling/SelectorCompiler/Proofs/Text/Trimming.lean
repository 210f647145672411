import Mathlib.Data.List.DropRight
import SelectorCompiler.Text.Delimited
import SelectorCompiler.Text.WhiteSpace

/-!
# Trimmed texts and pieces

What is known of a text after trimming, and of the pieces of a text between separators. A trimmed
text neither begins nor ends with white space, so trimming it again changes nothing, and it is found
again between any white space; a piece holds no separator, also when it is trimmed.
-/

namespace SelectorCompiler.Text

/-! ## The front -/

/-- The text does not begin with white space. -/
def BeginsInk (text : List Char) : Prop :=
  ∀ c rest, text = c :: rest → isWhiteSpace c = false

/-- Trimming the front leaves no white space there. -/
theorem beginsInk_trimStart (text : List Char) : BeginsInk (trimStart text) := by
  intro c rest h
  have hne : text.dropWhile isWhiteSpace ≠ [] := by
    intro hnil
    rw [trimStart, hnil] at h
    cases h
  have hhead := List.head_dropWhile_not isWhiteSpace hne
  have hc : (text.dropWhile isWhiteSpace).head hne = c := by
    simp only [trimStart] at h
    simp only [h, List.head_cons]
  rwa [hc] at hhead

/-- A text that begins with no white space is its own trimming at the front. -/
theorem trimStart_of_beginsInk {text : List Char} (h : BeginsInk text) : trimStart text = text := by
  cases text with
  | nil => rfl
  | cons c rest => simp [trimStart, h c rest rfl]

/-- Trimming the front takes off white space only, so what it leaves is empty exactly when the
text is blank. -/
theorem trimStart_eq_nil_iff {text : List Char} :
    trimStart text = [] ↔ ∀ c ∈ text, isWhiteSpace c = true :=
  List.dropWhile_eq_nil_iff

/-- The front part of a text that begins with no white space begins with none. -/
theorem BeginsInk.front {text front : List Char} (h : BeginsInk text) (hp : front <+: text) :
    BeginsInk front := by
  intro c rest hfront
  obtain ⟨later, rfl⟩ := hp
  subst hfront
  exact h c (rest ++ later) rfl

/-! ## Both ends -/

/-- A trimmed text begins with no white space. -/
theorem beginsInk_trim (text : List Char) : BeginsInk (trim text) := by
  have hfront := trimEnd_prefix (trimStart text)
  exact (beginsInk_trimStart text).front hfront

/-- A blank text at the end of a trimmed one is empty. -/
theorem eq_nil_of_suffix_trim {text last : List Char} (h : last <:+ trim text)
    (hblank : ∀ c ∈ last, isWhiteSpace c = true) : last = [] := by
  by_contra hne
  have htrim : trim text ≠ [] := by
    intro hnil
    rw [hnil] at h
    exact hne (List.suffix_nil.mp h)
  have hlast : (trim text).getLast htrim = last.getLast hne := h.getLast hne |>.symm
  have hink : ¬isWhiteSpace ((trim text).getLast htrim) = true :=
    List.rdropWhile_last_not isWhiteSpace (trimStart text) htrim
  rw [hlast] at hink
  exact hink (hblank _ (List.getLast_mem hne))

/-- Trimming twice is trimming once. -/
theorem trim_trim (text : List Char) : trim (trim text) = trim text := by
  rw [trim, trimStart_of_beginsInk (beginsInk_trim text)]
  exact List.rdropWhile_idempotent isWhiteSpace (trimStart text)

@[simp]
theorem trimString_trimString (text : String) : trimString (trimString text) = trimString text := by
  rw [← String.toList_inj]
  simp only [toList_trimString, trim_trim]

/-- Trimming adds no character. -/
theorem trim_sublist (text : List Char) : (trim text).Sublist text := by
  have hfront := trimEnd_prefix (trimStart text)
  exact hfront.sublist.trans (trimStart_suffix text).sublist

/-! ## White space around a text -/

/-- The text has no character but white space. -/
def Blank (text : List Char) : Prop :=
  ∀ c ∈ text, isWhiteSpace c = true

instance (text : List Char) : Decidable (Blank text) :=
  decidable_of_iff (text.all isWhiteSpace = true) List.all_eq_true

theorem Blank.append {front back : List Char} (hfront : Blank front) (hback : Blank back) :
    Blank (front ++ back) := by
  intro c hc
  rcases List.mem_append.mp hc with hc | hc
  · exact hfront c hc
  · exact hback c hc

/-- White space in front of a text is taken off. -/
theorem trimStart_blank_append {blank text : List Char} (hblank : Blank blank)
    (htext : BeginsInk text) : trimStart (blank ++ text) = text := by
  rw [trimStart, List.dropWhile_append_of_pos hblank]
  exact trimStart_of_beginsInk htext

/-! ## The end -/

/-- The last character fits, if there is one. -/
def EndsIn (fits : Char → Prop) (text : List Char) : Prop :=
  ∀ c, text.getLast? = some c → fits c

namespace EndsIn

variable {fits : Char → Prop} {front back text : List Char}

theorem of_forall (h : ∀ c ∈ text, fits c) : EndsIn fits text :=
  fun c hc ↦ h c (List.mem_of_getLast? hc)

theorem concat (front : List Char) {c : Char} (h : fits c) : EndsIn fits (front ++ [c]) := by
  intro d hd
  rw [List.getLast?_concat] at hd
  cases hd
  exact h

/-- The end of a text is the end of its last half, if that has any text. -/
theorem append_left (h : EndsIn fits back) (hne : back ≠ []) (front : List Char) :
    EndsIn fits (front ++ back) := by
  intro c hc
  rw [List.getLast?_append_of_ne_nil front hne] at hc
  exact h c hc

theorem append (hfront : EndsIn fits front) (hback : EndsIn fits back) :
    EndsIn fits (front ++ back) := by
  cases back with
  | nil => rwa [List.append_nil]
  | cons c rest => exact hback.append_left (List.cons_ne_nil c rest) front

theorem flatMap {α : Type} {items : List α} {piece : α → List Char}
    (h : ∀ item ∈ items, EndsIn fits (piece item)) : EndsIn fits (items.flatMap piece) := by
  induction items with
  | nil => exact of_forall (by simp)
  | cons item rest ih =>
    rw [List.flatMap_cons]
    exact (h item List.mem_cons_self).append (ih fun other ho ↦ h other (List.mem_cons_of_mem _ ho))

/-- The back part of a text ends as the text does. -/
theorem of_suffix (h : EndsIn fits text) (hs : back <:+ text) : EndsIn fits back := by
  intro c hc
  obtain ⟨earlier, rfl⟩ := hs
  have hne : back ≠ [] := List.ne_nil_of_mem (List.mem_of_getLast? hc)
  exact h c (by rw [List.getLast?_append_of_ne_nil earlier hne, hc])

end EndsIn

/-- The text does not end with white space. -/
def EndsInk : List Char → Prop :=
  EndsIn fun c ↦ isWhiteSpace c = false

/-- A blank text that ends with no white space is empty. -/
theorem EndsInk.eq_nil_of_blank {text : List Char} (h : EndsInk text) (hblank : Blank text) :
    text = [] := by
  cases hlast : text.getLast? with
  | none => exact List.getLast?_eq_none_iff.mp hlast
  | some c =>
    have hc := hblank c (List.mem_of_getLast? hlast)
    rw [h c hlast] at hc
    cases hc

/-- A trimmed text ends with no white space. -/
theorem endsInk_trim (text : List Char) : EndsInk (trim text) := by
  intro c h
  obtain ⟨front, hfront⟩ := List.getLast?_eq_some_iff.mp h
  by_contra hc
  have hnil : [c] = [] := eq_nil_of_suffix_trim ⟨front, hfront.symm⟩ (by simpa using hc)
  cases hnil

/-- Trimming takes white space off both ends. -/
theorem exists_blank_around (text : List Char) :
    ∃ front back, Blank front ∧ Blank back ∧ text = front ++ trim text ++ back := by
  refine ⟨text.takeWhile isWhiteSpace, (trimStart text).rtakeWhile isWhiteSpace, ?_, ?_, ?_⟩
  · intro c hc
    exact List.mem_takeWhile_imp hc
  · intro c hc
    exact List.mem_rtakeWhile_imp hc
  · have hend : trim text ++ (trimStart text).rtakeWhile isWhiteSpace = trimStart text :=
      List.rdropWhile_append_rtakeWhile
    rw [List.append_assoc, hend, takeWhile_append_trimStart]

/-- Between white space, trimming finds the text that has none at its own ends. -/
theorem trim_blank_around {front text back : List Char} (hfront : Blank front) (hback : Blank back)
    (hbegin : BeginsInk text) (hend : EndsInk text) : trim (front ++ text ++ back) = text := by
  have hstart : trimStart (front ++ text ++ back) = trimStart (text ++ back) := by
    rw [List.append_assoc]
    exact List.dropWhile_append_of_pos hfront
  have hlast : trimEnd (text ++ back) = text := by
    have hback' : Blank back.reverse := fun c hc ↦ hback c (List.mem_reverse.mp hc)
    rw [trimEnd, List.reverse_append, List.dropWhile_append_of_pos hback']
    apply List.rdropWhile_eq_self_iff.mpr
    intro hne
    rw [hend _ (List.getLast?_eq_some_getLast hne)]
    decide
  rw [trim, hstart]
  cases text with
  | nil =>
    rw [List.nil_append, trimStart_eq_nil_iff.mpr hback]
    rfl
  | cons c rest =>
    have hink : BeginsInk (c :: rest ++ back) := by
      intro d later hd
      cases hd
      exact hbegin c rest rfl
    rw [trimStart_of_beginsInk hink, hlast]

/-- A text with no white space at its end is trimmed at the front only. -/
theorem trim_of_endsInk {text : List Char} (h : EndsInk text) : trim text = trimStart text := by
  have hfront : Blank (text.takeWhile isWhiteSpace) := fun _ hc ↦ List.mem_takeWhile_imp hc
  have hback : Blank [] := by simp [Blank]
  have htrim := trim_blank_around hfront hback (beginsInk_trimStart text)
    (h.of_suffix (trimStart_suffix text))
  rwa [List.append_nil, takeWhile_append_trimStart] at htrim

/-- Two texts that are not blank, with some text between them, are trimmed at their outer ends. -/
theorem exists_trim_append {first second : List Char} (hfirst : trim first ≠ [])
    (hsecond : trim second ≠ []) :
    ∃ before after, Blank before ∧ Blank after ∧ ∀ middle,
      trim (first ++ middle ++ second) =
        trim first ++ (before ++ middle ++ after ++ trim second) := by
  obtain ⟨front, before, hfront, hbefore, hfirst'⟩ := exists_blank_around first
  obtain ⟨after, back, hafter, hback, hsecond'⟩ := exists_blank_around second
  refine ⟨before, after, hbefore, hafter, ?_⟩
  intro middle
  have hbegin : BeginsInk (trim first ++ (before ++ middle ++ after ++ trim second)) := by
    obtain ⟨c, rest, hcons⟩ := List.exists_cons_of_ne_nil hfirst
    intro d later hd
    rw [hcons] at hd
    cases hd
    exact beginsInk_trim first c rest hcons
  have hend : EndsInk (trim first ++ (before ++ middle ++ after ++ trim second)) := by
    rw [← List.append_assoc]
    exact (endsInk_trim second).append_left hsecond _
  have htext : first ++ middle ++ second =
      front ++ (trim first ++ (before ++ middle ++ after ++ trim second)) ++ back := by
    conv_lhs => rw [hfirst', hsecond']
    simp only [List.append_assoc]
  rw [htext, trim_blank_around hfront hback hbegin hend]

/-! ## Pieces -/

/-- A piece has only characters of the text, and no separator among them. -/
theorem mem_of_mem_splitOn {separator c : Char} {text piece : List Char}
    (h : piece ∈ text.splitOn separator) (hc : c ∈ piece) : c ∈ text ∧ c ≠ separator := by
  induction text generalizing piece with
  | nil =>
    rw [List.splitOn_nil, List.mem_singleton] at h
    rw [h] at hc
    cases hc
  | cons first rest ih =>
    rw [List.splitOn_cons_eq_if_modifyHead] at h
    split at h
    · rcases List.mem_cons.mp h with rfl | h
      · cases hc
      · exact ⟨List.mem_cons_of_mem _ (ih h hc).1, (ih h hc).2⟩
    · next hfirst =>
      -- The first piece of the rest gets one more character, and that is no separator.
      have hne := List.splitOn_ne_nil separator rest
      rcases List.exists_cons_of_ne_nil hne with ⟨piece', later, hrest⟩
      rw [hrest] at h ih
      rcases List.mem_cons.mp h with rfl | h
      · rcases List.mem_cons.mp hc with rfl | hc
        · exact ⟨List.mem_cons_self, by simpa using hfirst⟩
        · have hpiece := ih List.mem_cons_self hc
          exact ⟨List.mem_cons_of_mem _ hpiece.1, hpiece.2⟩
      · have hpiece := ih (List.mem_cons_of_mem _ h) hc
        exact ⟨List.mem_cons_of_mem _ hpiece.1, hpiece.2⟩

/-- No piece holds the separator. -/
theorem not_mem_of_mem_pieces {separator : Char} {text piece : String}
    (h : piece ∈ pieces separator text) : separator ∉ piece.toList := by
  obtain ⟨chars, hchars, rfl⟩ := List.mem_map.mp h
  rw [String.toList_ofList]
  intro hmem
  exact (mem_of_mem_splitOn hchars hmem).2 rfl

end SelectorCompiler.Text
