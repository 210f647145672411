import SelectorCompiler.Proofs.Json.RoundTrip
import SelectorCompiler.Proofs.OrderedMap
import SelectorCompiler.Selector.Json

/-!
# Segments are read back from JSON

`Segment.ofValue?` reads a segment from an object by the names of its members, in whatever order
these stand; the attributes keep theirs. It finds in the object of a segment every field of it. The
text of a chain, on one line or on many, is read as an array with one such object for each segment.
-/

namespace SelectorCompiler

namespace Json.Value

/-! ## Reading members -/

/-- The value of the first member with a key. -/
def member? (key : String) : Value → Option Value
  | .object members => members.lookup key
  | _ => none

/-- The text of a string. -/
def string? : Value → Option String
  | .string text => some text
  | _ => none

/-- The truth value. -/
def bool? : Value → Option Bool
  | .bool value => some value
  | _ => none

/-- The items of an array. -/
def items? : Value → Option (List Value)
  | .array items => some items
  | _ => none

/-- The members of an object in order. -/
def members? : Value → Option (List (String × Value))
  | .object members => some members
  | _ => none

/-- A string, or `null` in its place. -/
def option? : Value → Option (Option String)
  | .null => some none
  | .string text => some (some text)
  | _ => none

theorem option?_ofOption (text : Option String) : (ofOption text).option? = some text := by
  cases text <;> rfl

theorem numberFree_ofOption (text : Option String) : (ofOption text).NumberFree := by
  cases text <;> trivial

theorem depth_ofOption (text : Option String) : (ofOption text).depth = 0 := by
  cases text <;> rfl

end Json.Value

open Json

/-- A pseudo-class from a JSON object. -/
def PseudoClass.ofValue? (value : Value) : Option PseudoClass := do
  let name ← (← value.member? "name").string?
  let expression ← (← value.member? "expression").option?
  return ⟨name, expression⟩

namespace Segment

/-- The pseudo-class of a segment, with `null` for none. -/
def pseudoOf? : Value → Option (Option PseudoClass)
  | .null => some none
  | value => (PseudoClass.ofValue? value).map some

/-- A segment from a JSON object. -/
def ofValue? (value : Value) : Option Segment := do
  let selector ← (← value.member? "selector").string?
  let tag ← (← value.member? "tag").string?
  let id ← (← value.member? "id").option?
  let classes ← (← (← value.member? "classes").items?).mapM Value.string?
  let attributes ← (← (← value.member? "attributes").members?).mapM fun member ↦
    member.2.option?.map (member.1, ·)
  let pseudo ← pseudoOf? (← value.member? "pseudo")
  let child ← (← value.member? "child").bool?
  return ⟨selector, tag, id, classes, .ofList attributes, pseudo, child⟩

/-! ## One segment -/

/-- Items that are read one by one give back the list that they were made from. -/
theorem mapM_map_of_inverse {α β : Type} {write : α → β} {read : β → Option α}
    (h : ∀ a, read (write a) = some a) (items : List α) :
    (items.map write).mapM read = some items := by
  induction items with
  | nil => rfl
  | cons item items ih => simp [h, ih]

theorem pseudoOf?_toValue (pseudo : Option PseudoClass) :
    pseudoOf? ((pseudo.map PseudoClass.toValue).getD .null) = some pseudo := by
  cases pseudo with
  | none => rfl
  | some pseudo =>
    change (PseudoClass.ofValue? pseudo.toValue).map some = some (some pseudo)
    simp [PseudoClass.ofValue?, PseudoClass.toValue, Value.member?, Value.string?,
      Value.option?_ofOption, List.lookup_cons]

/-- Every field of a segment is found in its object. -/
theorem ofValue?_toValue (segment : Segment) : ofValue? segment.toValue = some segment := by
  have hclasses : (segment.classes.map Value.string).mapM Value.string? = some segment.classes := by
    apply mapM_map_of_inverse
    intro name
    rfl
  have hattributes :
      (segment.attributes.entries.map fun entry ↦ (entry.1, Value.ofOption entry.2)).mapM
        (fun member ↦ member.2.option?.map (member.1, ·)) = some segment.attributes.entries := by
    apply mapM_map_of_inverse
    intro entry
    simp [Value.option?_ofOption]
  simp [ofValue?, toValue, Value.member?, Value.string?, Value.items?, Value.members?, Value.bool?,
    List.lookup_cons, Value.option?_ofOption, hclasses, hattributes, pseudoOf?_toValue]

/-- The attributes stand in the order of the segment, with `null` for one that must only be
present. -/
theorem member?_attributes_toValue (segment : Segment) :
    segment.toValue.member? "attributes" =
      some (.object (segment.attributes.entries.map fun entry ↦ (entry.1, .ofOption entry.2))) := by
  simp [toValue, Value.member?, List.lookup_cons]

/-! ## A chain -/

theorem numberFree_toValue (segment : Segment) : segment.toValue.NumberFree := by
  have hpseudo : ((segment.pseudo.map PseudoClass.toValue).getD .null).NumberFree := by
    cases segment.pseudo with
    | none => trivial
    | some pseudo => exact ⟨trivial, Value.numberFree_ofOption _, trivial⟩
  simp only [toValue, Value.NumberFree, Value.MembersNumberFree, Value.itemsNumberFree_iff,
    Value.membersNumberFree_iff, List.forall_mem_map]
  simp [Value.numberFree_ofOption, hpseudo]

theorem depth_toValue_le (segment : Segment) : segment.toValue.depth ≤ 2 := by
  have hpseudo : ((segment.pseudo.map PseudoClass.toValue).getD .null).depth ≤ 1 := by
    cases segment.pseudo with
    | none => exact Nat.zero_le 1
    | some pseudo =>
      simp [PseudoClass.toValue, Value.depth, Value.membersDepth, Value.depth_ofOption]
  have hclasses : Value.itemsDepth (segment.classes.map .string) ≤ 0 := by
    rw [Value.itemsDepth_le_iff, List.forall_mem_map]
    intro name _
    exact Nat.le_refl 0
  have hattributes : Value.membersDepth
      (segment.attributes.entries.map fun entry ↦ (entry.1, Value.ofOption entry.2)) ≤ 0 := by
    rw [Value.membersDepth_le_iff, List.forall_mem_map]
    intro entry _
    exact Nat.le_of_eq (Value.depth_ofOption entry.2)
  simp only [toValue, Value.depth, Value.membersDepth, Value.depth_ofOption]
  omega

/-- The text of a chain is read back, in any layout. -/
theorem parse?_write_chainValue {layout : Layout} (hlayout : layout.Spaced)
    (segments : List Segment) :
    Value.parse? (String.ofList ((chainValue segments).write layout 0)) =
      some (.array (segments.map toValue)) := by
  have hdepth : Value.itemsDepth (segments.map toValue) ≤ 2 := by
    simp [Value.itemsDepth_le_iff, depth_toValue_le]
  apply Value.parse?_write hlayout
  · simp [chainValue, Value.NumberFree, Value.itemsNumberFree_iff, numberFree_toValue]
  · rw [chainValue, Value.depth, maxDepth]
    omega

end Segment

end SelectorCompiler
