import SelectorCompiler.Proofs.Compilation.Meaning
import SelectorCompiler.Proofs.Selector.Writing

/-!
# The test for a class

The classes that reading gives are the texts of id characters. Such a text holds no space character,
so the test for it asks for a word: it holds of an element exactly when the class is one of the
longest runs without a space character in the `class` attribute. An attribute that is not there
counts as an empty one.

XPath has no function for words, and the test searches a normalized text for the class between two
spaces. That no part of a word is found, and that every word is found wherever it stands, is said by
`Text.spaced_infix_iff` and `Text.mem_words_iff`.
-/

namespace SelectorCompiler

open Text XPath

/-! ## The classes that reading gives -/

/-- Some selector has a segment with the class. -/
def IsReadableClass (name : String) : Prop :=
  ∃ selector segments segment, Segment.readAll selector = .ok segments ∧
    segment ∈ segments ∧ name ∈ segment.classes

/-- The segment that asks for one class and for nothing else. -/
def Segment.ofClass (name : String) : Segment :=
  ⟨"", universalTag, none, [name], .empty, none, false⟩

theorem Segment.wellFormed_ofClass {name : String} (h : IsRun isIdChar name) :
    (Segment.ofClass name).WellFormed where
  tag := by
    change IsRun isTagChar universalTag
    decide
  id := by simp [ofClass]
  classes := by
    intro other hother
    rw [ofClass, List.mem_singleton] at hother
    rw [hother]
    exact h
  names := by simp [ofClass, OrderedMap.empty]
  values := by simp [ofClass, OrderedMap.empty]
  pseudo := by simp [ofClass]

/-- The classes that reading gives are the texts of id characters that are not empty. -/
theorem isReadableClass_iff {name : String} : IsReadableClass name ↔ IsRun isIdChar name := by
  constructor
  · rintro ⟨selector, segments, segment, hread, hmem, hname⟩
    rcases Reading.chain_eq_ok_iff.mp hread with ⟨-, rfl⟩
    rcases Reading.exists_parts_of_mem hmem with ⟨parts, hvalid, rfl⟩
    exact hvalid.wellFormed.classes name hname
  · intro hrun
    have hone : ∀ segment ∈ [Segment.ofClass name], segment.WellFormed := by
      simpa using Segment.wellFormed_ofClass hrun
    have hne : [Segment.ofClass name] ≠ [] := List.cons_ne_nil _ _
    rcases Reading.ofChars_intercalate_write hne hone with ⟨hstuck, hsegments⟩
    have hread : Reading.ofSelector (Segment.writeAll [Segment.ofClass name]) =
        Reading.ofChars ([' '].intercalate ([Segment.ofClass name].map Segment.write)) := by
      rw [Reading.ofSelector, Segment.writeAll, String.toList_ofList,
        trim_intercalate_write hne hone]
    rw [← hread] at hstuck hsegments
    rcases List.map_eq_singleton_iff.mp hsegments with ⟨segment, hsegment, hbare⟩
    refine ⟨Segment.writeAll [Segment.ofClass name], [segment], segment, ?_,
      List.mem_singleton_self _, ?_⟩
    · exact Reading.chain_eq_ok_iff.mpr ⟨hstuck, hsegment⟩
    · have hclasses : segment.classes = [name] := congrArg Segment.classes hbare
      rw [hclasses]
      exact List.mem_singleton_self _

/-! ## The test -/

theorem isSpace_of_isIdChar {c : Char} (h : isIdChar c = true) : isSpace c = false := by
  apply isSpace_of_isClassChar
  rw [isClassChar, h]
  rfl

/-- Reading gives exactly the classes that are not empty and have id characters only. The test for
such a class is written as a search in the normalized `class` attribute. It is a truth value, at
any element and at any position, and it is true exactly when the class is one of the longest runs
of the attribute without a space character. -/
theorem classPredicate_iff_longestRun (name : String) :
    (IsReadableClass name ↔ IsRun isIdChar name) ∧
    (IsRun isIdChar name →
      (classPredicate name).render =
        "contains(concat(\" \", normalize-space(@class), \" \"), \" " ++ name ++ " \")" ∧
      ∀ context : Context, ∃ holds, (classPredicate name).eval context = .truth holds ∧
        (holds = true ↔
          IsLongestRun name.toList
            ((context.element.attributes.get? "class").getD "").toList)) := by
  refine ⟨isReadableClass_iff, ?_⟩
  intro hrun
  refine ⟨Segment.render_classPredicate name, ?_⟩
  intro context
  have hne : name.toList ≠ [] := by simpa using hrun.1
  have hink : ∀ c ∈ name.toList, isSpace c = false := by
    intro c hc
    apply isSpace_of_isIdChar
    exact hrun.2 c hc
  refine ⟨_, eval_classPredicate context hne hink, ?_⟩
  rw [decide_eq_true_iff, Element.classes, mem_words_iff]

/-- A word between a tab and a line feed is found. A part of it is not, neither there nor where the
attribute is missing. -/
theorem classPredicate_iff_longestRun_of_spaces :
    let element : Element := ⟨"li", .ofList [("class", "  nav\tnav-item\n")], []⟩
    let plain : Element := ⟨"li", .empty, []⟩
    IsRun isIdChar "nav-item" ∧ IsRun isIdChar "item" ∧
      (classPredicate "nav-item").eval ⟨element, 1, 1⟩ = .truth true ∧
      (classPredicate "item").eval ⟨element, 1, 1⟩ = .truth false ∧
      (classPredicate "item").eval ⟨plain, 1, 1⟩ = .truth false := by
  intro element plain
  have hword : IsRun isIdChar "nav-item" := by decide
  have hpart : IsRun isIdChar "item" := by decide
  have hmisses {other : Element}
      (hnone : "item".toList ∉ words ((other.attributes.get? "class").getD "").toList) :
      (classPredicate "item").eval ⟨other, 1, 1⟩ = .truth false := by
    obtain ⟨holds, heval, hiff⟩ :=
      ((classPredicate_iff_longestRun "item").2 hpart).2 ⟨other, 1, 1⟩
    rw [← mem_words_iff] at hiff
    rw [heval, Bool.eq_false_iff.mpr fun hholds ↦ hnone (hiff.mp hholds)]
  refine ⟨hword, hpart, ?_, hmisses (by decide +kernel), hmisses (by decide +kernel)⟩
  obtain ⟨holds, heval, hiff⟩ :=
    ((classPredicate_iff_longestRun "nav-item").2 hword).2 ⟨element, 1, 1⟩
  rw [heval, hiff.mpr]
  refine ⟨by decide, by simp [isSpace], "  nav\t".toList, "\n".toList, ?_, ?_, ?_⟩
  · decide +kernel
  · simp [isSpace]
  · simp [isSpace]

end SelectorCompiler
