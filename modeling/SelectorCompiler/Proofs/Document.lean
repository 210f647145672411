import Mathlib.Data.List.Infix
import SelectorCompiler.OrderedMap

/-!
# Documents

A document is a finite forest of elements, each with a name, attributes and child elements. A node
is named by the way up from it: its place among its siblings, then the place of its parent among
the parent's siblings, and so on. The document node, above all elements, is the empty way. So the
parent of a node is its tail, and its ancestors are its proper suffixes.

`mem_nodesFrom_iff` says that the walk through a document from a node finds this node and those
below it.
-/

namespace SelectorCompiler

/-- An element. -/
inductive Element where
  | mk (name : String) (attributes : OrderedMap String String) (children : List Element)

namespace Element

/-- The name of the element type. -/
def name : Element → String
  | mk name _ _ => name

/-- The attributes with their values. -/
def attributes : Element → OrderedMap String String
  | mk _ attributes _ => attributes

/-- The child elements. -/
def children : Element → List Element
  | mk _ _ children => children

end Element

/-- A node of a document, as the way up from it. -/
abbrev Address := List Nat

namespace Address

/-- The place among the siblings. -/
def place (node : Address) : Nat := node.headD 0

/-- The node above. -/
def parent (node : Address) : Address := node.tail

/-- The node `ancestor` is above `node`. -/
def IsAncestor (ancestor node : Address) : Prop := ancestor <:+ node ∧ ancestor ≠ node

theorem isAncestor_cons_iff {ancestor parent : Address} {place : Nat} :
    IsAncestor ancestor (place :: parent) ↔ ancestor <:+ parent := by
  rw [IsAncestor, List.suffix_cons_iff]
  constructor
  · rintro ⟨heq | hsuffix, hne⟩
    · exact absurd heq hne
    · exact hsuffix
  · intro hsuffix
    refine ⟨Or.inr hsuffix, ?_⟩
    intro heq
    have hlength := hsuffix.length_le
    rw [heq, List.length_cons] at hlength
    omega

end Address

mutual

/-- The node of an element and the nodes below it, in document order. -/
def Element.nodes (node : Address) : Element → List Address
  | .mk _ _ children => node :: siblingNodes node 0 children

/-- The nodes of siblings and the nodes below them, where the first sibling has this place. -/
def siblingNodes (parent : Address) (place : Nat) : List Element → List Address
  | [] => []
  | element :: rest =>
    element.nodes (place :: parent) ++ siblingNodes parent (place + 1) rest

end

/-- A document. -/
structure Document where
  /-- The elements that are in no other element. -/
  roots : List Element

namespace Document

/-- The child elements of a node. -/
def children (document : Document) : Address → List Element
  | [] => document.roots
  | place :: parent =>
    match (document.children parent)[place]? with
    | none => []
    | some element => element.children

/-- The element at a node; the document node has none. -/
def element? (document : Document) : Address → Option Element
  | [] => none
  | place :: parent => (document.children parent)[place]?

/-- A node and the nodes below it, in document order. -/
def nodesFrom (document : Document) (node : Address) : List Address :=
  node :: siblingNodes node 0 (document.children node)

theorem element?_cons (document : Document) (place : Nat) (parent : Address) :
    document.element? (place :: parent) = (document.children parent)[place]? := rfl

theorem children_of_element? {document : Document} {node : Address} {element : Element}
    (helement : document.element? node = some element) :
    document.children node = element.children := by
  cases node with
  | nil => cases helement
  | cons place parent =>
    rw [element?_cons] at helement
    rw [children, helement]

/-- Above an element there are only elements and the document node. -/
theorem exists_element?_of_suffix {document : Document} {upper node : Address}
    (hsuffix : upper <:+ node) (hupper : upper ≠ [])
    (hnode : ∃ element, document.element? node = some element) :
    ∃ element, document.element? upper = some element := by
  induction node with
  | nil => exact absurd (List.suffix_nil.mp hsuffix) hupper
  | cons place parent ih =>
    rcases List.suffix_cons_iff.mp hsuffix with heq | hparent
    · rw [heq]
      exact hnode
    · apply ih hparent
      rcases hnode with ⟨element, helement⟩
      cases parent with
      | nil => exact absurd (List.suffix_nil.mp hparent) hupper
      | cons place' parent' =>
        cases hcase : document.element? (place' :: parent') with
        | some above => exact ⟨above, rfl⟩
        | none =>
          rw [element?_cons] at helement hcase
          rw [children, hcase] at helement
          cases helement

end Document

/-! ## The walk through a document -/

private theorem isAncestor_iff_exists_place {upper lower : Address} :
    Address.IsAncestor upper lower ↔ ∃ place, place :: upper <:+ lower := by
  constructor
  · rintro ⟨⟨way, rfl⟩, hne⟩
    cases way using List.reverseRecOn with
    | nil => exact absurd rfl hne
    | append_singleton front place =>
      refine ⟨place, front, ?_⟩
      rw [List.append_assoc, List.singleton_append]
  · rintro ⟨place, hsuffix⟩
    refine ⟨(List.suffix_cons place upper).trans hsuffix, ?_⟩
    intro heq
    have hlength := hsuffix.length_le
    rw [heq, List.length_cons] at hlength
    omega

mutual

private theorem mem_nodes_iff (document : Document) (node lower : Address) :
    ∀ element, document.element? node = some element →
      (lower ∈ element.nodes node ↔
        node <:+ lower ∧ ∃ found, document.element? lower = some found)
  | .mk name attributes children, helement => by
    have hchildren := Document.children_of_element? helement
    have hbelow := mem_siblingNodes_iff document node lower 0 children hchildren
    rw [Element.nodes, List.mem_cons, hbelow]
    constructor
    · rintro (heq | ⟨⟨place, _, hsuffix⟩, hfound⟩)
      · rw [heq]
        exact ⟨List.suffix_refl node, _, helement⟩
      · exact ⟨(List.suffix_cons place node).trans hsuffix, hfound⟩
    · rintro ⟨hsuffix, hfound⟩
      by_cases heq : node = lower
      · exact Or.inl heq.symm
      · rcases isAncestor_iff_exists_place.mp ⟨hsuffix, heq⟩ with ⟨place, hplace⟩
        exact Or.inr ⟨⟨place, Nat.zero_le place, hplace⟩, hfound⟩

private theorem mem_siblingNodes_iff (document : Document) (parent lower : Address) (start : Nat) :
    ∀ elements : List Element, (document.children parent).drop start = elements →
      (lower ∈ siblingNodes parent start elements ↔
        (∃ place, start ≤ place ∧ place :: parent <:+ lower) ∧
          ∃ found, document.element? lower = some found)
  | [], hdrop => by
    rw [siblingNodes]
    constructor
    · intro hmem
      cases hmem
    · rintro ⟨⟨place, hstart, hsuffix⟩, hfound⟩
      rcases Document.exists_element?_of_suffix hsuffix (List.cons_ne_nil _ _) hfound with
        ⟨element, helement⟩
      have hlength := List.drop_eq_nil_iff.mp hdrop
      rw [Document.element?_cons, List.getElem?_eq_none (hlength.trans hstart)] at helement
      cases helement
  | element :: rest, hdrop => by
    have helement : document.element? (start :: parent) = some element := by
      rw [Document.element?_cons, ← List.head?_drop, hdrop, List.head?_cons]
    have hrest : (document.children parent).drop (start + 1) = rest := by
      rw [← List.tail_drop, hdrop, List.tail_cons]
    rw [siblingNodes, List.mem_append,
      mem_nodes_iff document (start :: parent) lower element helement,
      mem_siblingNodes_iff document parent lower (start + 1) rest hrest]
    constructor
    · rintro (⟨hsuffix, hfound⟩ | ⟨⟨place, hplace, hsuffix⟩, hfound⟩)
      · exact ⟨⟨start, le_rfl, hsuffix⟩, hfound⟩
      · exact ⟨⟨place, Nat.le_of_succ_le hplace, hsuffix⟩, hfound⟩
    · rintro ⟨⟨place, hplace, hsuffix⟩, hfound⟩
      rcases Nat.eq_or_lt_of_le hplace with heq | hlt
      · rw [← heq] at hsuffix
        exact Or.inl ⟨hsuffix, hfound⟩
      · exact Or.inr ⟨⟨place, hlt, hsuffix⟩, hfound⟩

end

namespace Document

/-- The walk from a node of the document finds the node and all elements below it. -/
theorem mem_nodesFrom_iff {document : Document} {node lower : Address} :
    lower ∈ document.nodesFrom node ↔
      lower = node ∨
        Address.IsAncestor node lower ∧ ∃ found, document.element? lower = some found := by
  rw [nodesFrom, List.mem_cons, mem_siblingNodes_iff document node lower 0 _ List.drop_zero,
    isAncestor_iff_exists_place]
  simp only [Nat.zero_le, true_and]

/-- The walk from a node finds the parent of an element exactly when it starts above the
element. -/
theorem parent_mem_nodesFrom_iff {document : Document} {origin node : Address} {element : Element}
    (helement : document.element? node = some element) :
    node.parent ∈ document.nodesFrom origin ↔ Address.IsAncestor origin node := by
  cases node with
  | nil => cases helement
  | cons place parent =>
    rw [Address.isAncestor_cons_iff, mem_nodesFrom_iff]
    change parent = origin ∨ Address.IsAncestor origin parent ∧ _ ↔ _
    constructor
    · rintro (heq | ⟨hancestor, _⟩)
      · rw [heq]
      · exact hancestor.1
    · intro hsuffix
      by_cases heq : origin = parent
      · exact Or.inl heq.symm
      · have hparent : parent ≠ [] := by
          rintro rfl
          exact heq (List.suffix_nil.mp hsuffix)
        exact Or.inr ⟨⟨hsuffix, heq⟩,
          exists_element?_of_suffix (List.suffix_cons place parent) hparent ⟨element, helement⟩⟩

end Document

end SelectorCompiler
