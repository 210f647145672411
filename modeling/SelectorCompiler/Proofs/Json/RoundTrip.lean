import SelectorCompiler.Json.Reader
import SelectorCompiler.Json.Writer

/-!
# JSON values are read back

The text of a value, in any layout that puts only spaces and line breaks between tokens, is scanned
into the tokens of the value, and these spell the value. Both halves follow the recursion of the
writer. The values are those without numbers, nested no deeper than the reader allows.

The main statement is `Value.parse?_write`.
-/

namespace SelectorCompiler.Json

/-- A text between quotation marks, escaped. -/
def quoted (text : String) : String :=
  String.ofList (quote text.toList)

/-! ## Values and their tokens -/

namespace Value

mutual

/-- The value holds no number. -/
def NumberFree : Value → Prop
  | .number _ => False
  | .array items => ItemsNumberFree items
  | .object members => MembersNumberFree members
  | _ => True

/-- The items hold no number. -/
def ItemsNumberFree : List Value → Prop
  | [] => True
  | item :: items => NumberFree item ∧ ItemsNumberFree items

/-- The members hold no number. -/
def MembersNumberFree : List (String × Value) → Prop
  | [] => True
  | (_, value) :: members => NumberFree value ∧ MembersNumberFree members

end

mutual

/-- How many containers are open at once at most, while the value is read. -/
def depth : Value → Nat
  | .array items => itemsDepth items + 1
  | .object members => membersDepth members + 1
  | _ => 0

/-- The depth of the deepest item. -/
def itemsDepth : List Value → Nat
  | [] => 0
  | item :: items => max (depth item) (itemsDepth items)

/-- The depth of the deepest member. -/
def membersDepth : List (String × Value) → Nat
  | [] => 0
  | (_, value) :: members => max (depth value) (membersDepth members)

end

mutual

/-- The tokens of a value. -/
def tokens : Value → List Token
  | .null => [.null]
  | .bool value => [.bool value]
  | .number text => [.number text]
  | .string text => [.string text]
  | .array [] => [.openArray, .closeArray]
  | .array (item :: items) =>
    .openArray :: (tokens item ++ itemTokens items ++ [.closeArray])
  | .object [] => [.openObject, .closeObject]
  | .object ((key, value) :: members) =>
    .openObject :: .string key :: .colon :: (tokens value ++ memberTokens members ++ [.closeObject])

/-- The tokens of further items, each after a comma. -/
def itemTokens : List Value → List Token
  | [] => []
  | item :: items => .comma :: (tokens item ++ itemTokens items)

/-- The tokens of further members, each after a comma. -/
def memberTokens : List (String × Value) → List Token
  | [] => []
  | (key, value) :: members =>
    .comma :: .string key :: .colon :: (tokens value ++ memberTokens members)

end

theorem itemsNumberFree_iff {items : List Value} :
    ItemsNumberFree items ↔ ∀ item ∈ items, item.NumberFree := by
  induction items with
  | nil => simp [ItemsNumberFree]
  | cons item items ih => rw [ItemsNumberFree, ih, List.forall_mem_cons]

theorem membersNumberFree_iff {members : List (String × Value)} :
    MembersNumberFree members ↔ ∀ member ∈ members, member.2.NumberFree := by
  induction members with
  | nil => simp [MembersNumberFree]
  | cons member members ih => rw [MembersNumberFree, ih, List.forall_mem_cons]

theorem itemsDepth_le_iff {items : List Value} {bound : Nat} :
    itemsDepth items ≤ bound ↔ ∀ item ∈ items, item.depth ≤ bound := by
  induction items with
  | nil => simp [itemsDepth]
  | cons item items ih => rw [itemsDepth, Nat.max_le, ih, List.forall_mem_cons]

theorem membersDepth_le_iff {members : List (String × Value)} {bound : Nat} :
    membersDepth members ≤ bound ↔ ∀ member ∈ members, member.2.depth ≤ bound := by
  induction members with
  | nil => simp [membersDepth]
  | cons member members ih => rw [membersDepth, Nat.max_le, ih, List.forall_mem_cons]

end Value

/-! ## Scanning what was written -/

/-- A layout that puts only white space between tokens. -/
structure Layout.Spaced (layout : Layout) : Prop where
  /-- A line break is white space. -/
  lineBreak : ∀ depth, ∀ c ∈ layout.lineBreak depth, isSpace c = true
  /-- White space may follow a colon. -/
  colon : ∃ space, layout.colon = ':' :: space ∧ ∀ c ∈ space, isSpace c = true

theorem Layout.spaced_compact : Layout.compact.Spaced :=
  ⟨by simp [compact], [], rfl, by simp⟩

theorem Layout.spaced_indented : Layout.indented.Spaced := by
  refine ⟨?_, [' '], rfl, List.forall_mem_singleton.mpr rfl⟩
  intro depth c hc
  rcases List.mem_cons.mp hc with rfl | hc
  · rfl
  · rw [List.eq_of_mem_replicate hc]
    rfl

namespace Token

theorem scan_nil : scan [] = some [] := by
  rw [scan]
  rfl

/-- White space in front of a text is skipped. -/
theorem scan_space_append {space : List Char} (h : ∀ c ∈ space, isSpace c = true)
    (text : List Char) : scan (space ++ text) = scan text := by
  rw [scan, scan, List.dropWhile_append_of_pos h]

/-- A token at the front of a text is scanned first. -/
theorem scan_cons {c : Char} {text rest : List Char} {token : Token} (hc : isSpace c = false)
    (h : read? (c :: text) = some (token, rest)) :
    scan (c :: text) = (scan rest).map (token :: ·) := by
  have hfront : (c :: text).dropWhile isSpace = c :: text := by simp [hc]
  rw [scan]
  simp only [hfront, if_neg (List.cons_ne_nil c text)]
  split
  · next hnone =>
    rw [hfront, h] at hnone
    cases hnone
  · next hsome =>
    rw [hfront, h] at hsome
    cases hsome
    rfl

/-- A quoted string is scanned as one token. -/
theorem scan_quote (text rest : List Char) :
    scan (quote text ++ rest) = (scan rest).map (.string (String.ofList text) :: ·) := by
  have hread : read? ('"' :: (text.flatMap escape ++ '"' :: rest)) =
      some (.string (String.ofList text), rest) := by
    rw [read?, unquote?_flatMap_escape]
    rfl
  have htext : quote text ++ rest = '"' :: (text.flatMap escape ++ '"' :: rest) := by
    simp [quote]
  rw [htext, scan_cons (by decide) hread]

/-- The colon after a key is scanned with the white space of the layout. -/
theorem scan_colon {layout : Layout} (hlayout : layout.Spaced) (rest : List Char) :
    scan (layout.colon ++ rest) = (scan rest).map (.colon :: ·) := by
  obtain ⟨space, hcolon, hspace⟩ := hlayout.colon
  rw [hcolon, List.cons_append, scan_cons rfl rfl, scan_space_append hspace]

end Token

namespace Value

open Token

variable {layout : Layout}

mutual

/-- The text of a value is scanned into its tokens, whatever follows. -/
theorem scan_write (hlayout : layout.Spaced) (depth : Nat) :
    ∀ value : Value, value.NumberFree → ∀ rest,
      scan (value.write layout depth ++ rest) = (scan rest).map (value.tokens ++ ·)
  | .null, _, rest => scan_cons rfl rfl
  | .bool true, _, rest => scan_cons rfl rfl
  | .bool false, _, rest => scan_cons rfl rfl
  | .number _, h, _ => h.elim
  | .string text, _, rest => by
    rw [write, scan_quote, String.ofList_toList]
    rfl
  | .array [], _, rest => by
    rw [write, List.cons_append, scan_cons rfl rfl, List.cons_append, scan_cons rfl rfl]
    simp [tokens, Function.comp_def]
  | .array (item :: items), h, rest => by
    rw [write, List.cons_append, scan_cons rfl rfl]
    simp only [List.append_assoc]
    rw [scan_space_append (hlayout.lineBreak _), scan_write hlayout _ item h.1,
      scan_writeItems hlayout _ items h.2, scan_space_append (hlayout.lineBreak _),
      List.singleton_append, scan_cons rfl rfl]
    simp [tokens, Function.comp_def]
  | .object [], _, rest => by
    rw [write, List.cons_append, scan_cons rfl rfl, List.cons_append, scan_cons rfl rfl]
    simp [tokens, Function.comp_def]
  | .object ((key, value) :: members), h, rest => by
    rw [write, List.cons_append, scan_cons rfl rfl]
    simp only [List.append_assoc]
    rw [scan_space_append (hlayout.lineBreak _), scan_quote, scan_colon hlayout,
      scan_write hlayout _ value h.1, scan_writeMembers hlayout _ members h.2,
      scan_space_append (hlayout.lineBreak _), List.singleton_append, scan_cons rfl rfl]
    simp [tokens, Function.comp_def]

theorem scan_writeItems (hlayout : layout.Spaced) (depth : Nat) :
    ∀ items : List Value, ItemsNumberFree items → ∀ rest,
      scan (writeItems layout depth items ++ rest) = (scan rest).map (itemTokens items ++ ·)
  | [], _, rest => by simp [writeItems, itemTokens]
  | item :: items, h, rest => by
    rw [writeItems, List.cons_append, scan_cons rfl rfl]
    simp only [List.append_assoc]
    rw [scan_space_append (hlayout.lineBreak _), scan_write hlayout _ item h.1,
      scan_writeItems hlayout _ items h.2]
    simp [itemTokens, Function.comp_def]

theorem scan_writeMembers (hlayout : layout.Spaced) (depth : Nat) :
    ∀ members : List (String × Value), MembersNumberFree members → ∀ rest,
      scan (writeMembers layout depth members ++ rest) = (scan rest).map (memberTokens members ++ ·)
  | [], _, rest => by simp [writeMembers, memberTokens]
  | (key, value) :: members, h, rest => by
    rw [writeMembers, List.cons_append, scan_cons rfl rfl]
    simp only [List.append_assoc]
    rw [scan_space_append (hlayout.lineBreak _), scan_quote, scan_colon hlayout,
      scan_write hlayout _ value h.1, scan_writeMembers hlayout _ members h.2]
    simp [memberTokens, Function.comp_def]

end

end Value

/-! ## Reading the tokens of a value -/

namespace Value

open Expecting

/-- The first token of a value does not end an array. -/
theorem exists_tokens_eq_cons (value : Value) :
    ∃ token rest, value.tokens = token :: rest ∧ token ≠ .closeArray := by
  match value with
  | .null => exact ⟨_, _, rfl, by simp⟩
  | .bool _ => exact ⟨_, _, rfl, by simp⟩
  | .number _ => exact ⟨_, _, rfl, by simp⟩
  | .string _ => exact ⟨_, _, rfl, by simp⟩
  | .array [] => exact ⟨_, _, rfl, by simp⟩
  | .array (_ :: _) => exact ⟨_, _, rfl, by simp⟩
  | .object [] => exact ⟨_, _, rfl, by simp⟩
  | .object (_ :: _) => exact ⟨_, _, rfl, by simp⟩

/-- The first item of an array is read like any other value. -/
theorem foldlM_firstItem (value : Value) (stack : List Frame) (more : List Token) :
    (value.tokens ++ more).foldlM step (.firstItem stack) =
      (value.tokens ++ more).foldlM step (.nextValue (.array [] :: stack)) := by
  obtain ⟨token, rest, htokens, hclose⟩ := value.exists_tokens_eq_cons
  have hstep : step (.firstItem stack) token = step (.nextValue (.array [] :: stack)) token := by
    cases token with
    | closeArray => exact absurd rfl hclose
    | _ => rfl
  rw [htokens, List.cons_append, List.foldlM_cons, List.foldlM_cons, hstep]

/-- The reader takes a token and goes on. -/
private theorem foldlM_cons_of_step {state next : Expecting} {token : Token}
    (h : step state token = some next) (more : List Token) :
    (token :: more).foldlM step state = more.foldlM step next := by
  rw [List.foldlM_cons, h]
  rfl

mutual

/-- The tokens of a value are read as the value, and then the reader goes on around it. -/
theorem foldlM_tokens :
    ∀ (value : Value) (stack : List Frame), stack.length + value.depth ≤ maxDepth →
      ∀ more : List Token, (value.tokens ++ more).foldlM step (.nextValue stack) =
        more.foldlM step (after value stack)
  | .null, _, _, _ => rfl
  | .bool _, _, _, _ => rfl
  | .number _, _, _, _ => rfl
  | .string _, _, _, _ => rfl
  | .array [], stack, h, more => by
    have hopen : step (.nextValue stack) .openArray = some (.firstItem stack) :=
      if_pos (by rw [depth] at h; omega)
    rw [tokens, List.cons_append, foldlM_cons_of_step hopen]
    rfl
  | .array (item :: items), stack, h, more => by
    rw [depth, itemsDepth] at h
    have hopen : step (.nextValue stack) .openArray = some (.firstItem stack) :=
      if_pos (by omega)
    rw [tokens, List.cons_append, foldlM_cons_of_step hopen, List.append_assoc, List.append_assoc,
      foldlM_firstItem, foldlM_tokens item _ (by rw [List.length_cons]; omega)]
    exact foldlM_itemTokens items [item] stack (by omega) more
  | .object [], stack, h, more => by
    have hopen : step (.nextValue stack) .openObject = some (.firstKey stack) :=
      if_pos (by rw [depth] at h; omega)
    rw [tokens, List.cons_append, foldlM_cons_of_step hopen]
    rfl
  | .object ((key, value) :: members), stack, h, more => by
    rw [depth, membersDepth] at h
    have hopen : step (.nextValue stack) .openObject = some (.firstKey stack) :=
      if_pos (by omega)
    have hkey : step (.firstKey stack) (.string key) = some (.colon [] key stack) := rfl
    have hcolon : step (.colon [] key stack) .colon =
      some (.nextValue (.member [] key :: stack)) := rfl
    rw [tokens, List.cons_append, foldlM_cons_of_step hopen, List.cons_append,
      foldlM_cons_of_step hkey, List.cons_append, foldlM_cons_of_step hcolon, List.append_assoc,
      List.append_assoc, foldlM_tokens value _ (by rw [List.length_cons]; omega)]
    exact foldlM_memberTokens members [(key, value)] stack (by omega) more

theorem foldlM_itemTokens :
    ∀ (items done : List Value) (stack : List Frame),
      stack.length + 1 + itemsDepth items ≤ maxDepth →
      ∀ more : List Token,
        (itemTokens items ++ .closeArray :: more).foldlM step (.afterItem done stack) =
          more.foldlM step (after (.array (done.reverse ++ items)) stack)
  | [], done, stack, _, more => by
    rw [List.append_nil]
    rfl
  | item :: items, done, stack, h, more => by
    rw [itemsDepth] at h
    have hcomma : step (.afterItem done stack) .comma =
      some (.nextValue (.array done :: stack)) := rfl
    rw [itemTokens, List.cons_append, foldlM_cons_of_step hcomma, List.append_assoc,
      foldlM_tokens item _ (by rw [List.length_cons]; omega)]
    have hitems := foldlM_itemTokens items (item :: done) stack (by omega) more
    rwa [List.reverse_cons, List.append_assoc] at hitems

theorem foldlM_memberTokens :
    ∀ (members done : List (String × Value)) (stack : List Frame),
      stack.length + 1 + membersDepth members ≤ maxDepth →
      ∀ more : List Token,
        (memberTokens members ++ .closeObject :: more).foldlM step (.afterMember done stack) =
          more.foldlM step (after (.object (done.reverse ++ members)) stack)
  | [], done, stack, _, more => by
    rw [List.append_nil]
    rfl
  | (key, value) :: members, done, stack, h, more => by
    rw [membersDepth] at h
    have hcomma : step (.afterMember done stack) .comma = some (.nextKey done stack) := rfl
    have hkey : step (.nextKey done stack) (.string key) = some (.colon done key stack) := rfl
    have hcolon : step (.colon done key stack) .colon =
      some (.nextValue (.member done key :: stack)) := rfl
    rw [memberTokens, List.cons_append, foldlM_cons_of_step hcomma, List.cons_append,
      foldlM_cons_of_step hkey, List.cons_append, foldlM_cons_of_step hcolon, List.append_assoc,
      foldlM_tokens value _ (by rw [List.length_cons]; omega)]
    have hmembers := foldlM_memberTokens members ((key, value) :: done) stack (by omega) more
    rwa [List.reverse_cons, List.append_assoc] at hmembers

end

/-- The tokens of a value spell it. -/
theorem ofTokens?_tokens {value : Value} (h : value.depth ≤ maxDepth) :
    ofTokens? value.tokens = some value := by
  have hread := foldlM_tokens value [] (by simpa using h) []
  rw [List.append_nil] at hread
  rw [ofTokens?, hread]
  rfl

/-- A value without numbers that is not nested too deep is read back from its text. -/
theorem parse?_write {layout : Layout} (hlayout : layout.Spaced) {value : Value}
    (hnumbers : value.NumberFree) (hdepth : value.depth ≤ maxDepth) :
    parse? (String.ofList (value.write layout 0)) = some value := by
  have hscan := scan_write hlayout 0 value hnumbers []
  rw [List.append_nil, Token.scan_nil] at hscan
  rw [parse?, String.toList_ofList, hscan]
  simpa using ofTokens?_tokens hdepth

end Value

end SelectorCompiler.Json
