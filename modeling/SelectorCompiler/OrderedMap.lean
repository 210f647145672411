/-!
# Ordered maps

Finite maps that remember the order in which their keys were first inserted. Writing a key again
changes its value and not its place. The view of a map is its list of entries;
each operation is described by what it does to that list and to `get?`.
-/

namespace SelectorCompiler

/-- A list of key and value pairs, each key at most once, in the order of first insertion. -/
structure OrderedMap (κ α : Type) where
  /-- The pairs in order. -/
  entries : List (κ × α)
  /-- No key stands twice. -/
  distinct : (entries.map Prod.fst).Nodup
deriving DecidableEq, Repr

namespace OrderedMap

variable {κ α : Type}

/-- The map without entries. -/
def empty : OrderedMap κ α := ⟨[], List.nodup_nil⟩

instance : Inhabited (OrderedMap κ α) := ⟨empty⟩

/-- The keys in order. -/
def keys (map : OrderedMap κ α) : List κ := map.entries.map Prod.fst

/-- The number of entries. -/
def size (map : OrderedMap κ α) : Nat := map.entries.length

/-- The map has no entries. -/
def isEmpty (map : OrderedMap κ α) : Bool := map.entries.isEmpty

@[simp]
theorem keys_empty : (empty : OrderedMap κ α).keys = [] := rfl

variable [DecidableEq κ]

/-- The value of a key. -/
def get? (map : OrderedMap κ α) (key : κ) : Option α := map.entries.lookup key

/-- Write one entry into a list of pairs: in place when the key is there, else at the end. -/
def writeEntry (key : κ) (value : α) : List (κ × α) → List (κ × α)
  | [] => [(key, value)]
  | entry :: rest =>
    if entry.1 = key then (key, value) :: rest else entry :: writeEntry key value rest

/-- Writing keeps the keys and their order, and appends a new one. -/
theorem keys_writeEntry (key : κ) (value : α) (entries : List (κ × α)) :
    (writeEntry key value entries).map Prod.fst =
      if key ∈ entries.map Prod.fst then entries.map Prod.fst
      else entries.map Prod.fst ++ [key] := by
  induction entries with
  | nil => simp [writeEntry]
  | cons entry rest ih =>
    by_cases h : entry.1 = key
    · simp [writeEntry, h]
    · have h' : ¬key = entry.1 := fun e ↦ h e.symm
      by_cases hmem : key ∈ rest.map Prod.fst
      · simp only [writeEntry, h, if_false, List.map_cons, ih, hmem, if_true, List.mem_cons, h',
          false_or]
      · simp only [writeEntry, h, if_false, List.map_cons, ih, hmem, List.mem_cons, h', or_self,
          List.cons_append]

/-- After writing, the key has the new value and every other key its old one. -/
theorem lookup_writeEntry (key other : κ) (value : α) (entries : List (κ × α)) :
    (writeEntry key value entries).lookup other =
      if other = key then some value else entries.lookup other := by
  have differ {a b : κ} (h : a ≠ b) : (a == b) = false := beq_eq_false_iff_ne.mpr h
  induction entries with
  | nil => by_cases h : other = key <;> simp [writeEntry, List.lookup_cons, h, differ]
  | cons entry rest ih =>
    obtain ⟨k, v⟩ := entry
    by_cases hk : k = key
    · subst hk
      by_cases h : other = k <;> simp [writeEntry, List.lookup_cons, h, differ]
    · by_cases h : other = k
      · subst h
        simp [writeEntry, hk]
      · simp [writeEntry, List.lookup_cons, hk, differ h, ih]

private theorem nodup_keys_writeEntry {key : κ} {value : α} {entries : List (κ × α)}
    (h : (entries.map Prod.fst).Nodup) : ((writeEntry key value entries).map Prod.fst).Nodup := by
  rw [keys_writeEntry]
  split
  · exact h
  · next hmem =>
    refine List.nodup_append.mpr ⟨h, by simp, ?_⟩
    intro a ha b hb hab
    simp only [List.mem_singleton] at hb
    exact hmem (hb ▸ hab ▸ ha)

/-- Give a key a value: a present key keeps its place, a new one comes last. -/
def insert (map : OrderedMap κ α) (key : κ) (value : α) : OrderedMap κ α :=
  ⟨writeEntry key value map.entries, nodup_keys_writeEntry map.distinct⟩

/-- Insert pairs one after another into the empty map. -/
def ofList (entries : List (κ × α)) : OrderedMap κ α :=
  entries.foldl (fun map entry ↦ map.insert entry.1 entry.2) empty

/-- The same entries in increasing order of their keys, compared by code points. -/
def sorted (map : OrderedMap String α) : OrderedMap String α :=
  ⟨map.entries.mergeSort (fun a b ↦ decide (a.1 ≤ b.1)),
    ((List.mergeSort_perm map.entries _).map Prod.fst).nodup_iff.mpr map.distinct⟩

/-- Both maps have the same keys with the same values, in whatever order. -/
def sameEntries [BEq α] (a b : OrderedMap κ α) : Bool :=
  a.size == b.size && a.entries.all (fun entry ↦ b.get? entry.1 == some entry.2)

@[simp]
theorem get?_empty (key : κ) : (empty : OrderedMap κ α).get? key = none := rfl

/-- Insertion changes the value of its own key only. -/
theorem get?_insert (map : OrderedMap κ α) (key other : κ) (value : α) :
    (map.insert key value).get? other = if other = key then some value else map.get? other :=
  lookup_writeEntry key other value map.entries

/-- Insertion keeps the order of the keys and puts a new key last. -/
theorem keys_insert (map : OrderedMap κ α) (key : κ) (value : α) :
    (map.insert key value).keys = if key ∈ map.keys then map.keys else map.keys ++ [key] :=
  keys_writeEntry key value map.entries

/-- Sorting permutes the entries. -/
theorem entries_sorted_perm (map : OrderedMap String α) : map.sorted.entries.Perm map.entries :=
  List.mergeSort_perm map.entries _

end OrderedMap

end SelectorCompiler
