import Mathlib.Data.List.Nodup
import Mathlib.Data.List.Perm.Subperm
import SelectorCompiler.OrderedMap

/-!
# Entries of ordered maps

The entries of a map and its look-ups say the same, since no key stands twice. So every law of
`get?` is a law of the entries.
-/

namespace SelectorCompiler.OrderedMap

variable {κ α : Type}

/-- Maps are equal when their entries are, in the same order. -/
theorem ext_entries {map other : OrderedMap κ α} (h : map.entries = other.entries) :
    map = other := by
  cases map
  cases other
  cases h
  rfl

private theorem nodup_entries (map : OrderedMap κ α) : map.entries.Nodup :=
  List.Nodup.of_map Prod.fst map.distinct

variable [DecidableEq κ]

private theorem lookup_eq_some_iff {key : κ} {value : α} {entries : List (κ × α)}
    (h : (entries.map Prod.fst).Nodup) :
    entries.lookup key = some value ↔ (key, value) ∈ entries := by
  induction entries with
  | nil => simp
  | cons entry rest ih =>
    obtain ⟨k, v⟩ := entry
    rw [List.map_cons, List.nodup_cons] at h
    by_cases hk : key = k
    · subst hk
      have hrest : (key, value) ∉ rest := by
        intro hmem
        exact h.1 (List.mem_map.mpr ⟨(key, value), hmem, rfl⟩)
      simp [hrest, eq_comm]
    · rw [List.lookup_cons, beq_eq_false_iff_ne.mpr hk]
      simp [hk, ih h.2]

/-- A key has the value that it is entered with. -/
theorem get?_eq_some_iff {map : OrderedMap κ α} {key : κ} {value : α} :
    map.get? key = some value ↔ (key, value) ∈ map.entries :=
  lookup_eq_some_iff map.distinct

/-- A key without a value is no key of the map. -/
theorem get?_eq_none_iff {map : OrderedMap κ α} {key : κ} :
    map.get? key = none ↔ key ∉ map.keys := by
  rw [Option.eq_none_iff_forall_ne_some]
  constructor
  · intro hnone hkey
    obtain ⟨entry, hmem, rfl⟩ := List.mem_map.mp hkey
    exact hnone entry.2 (get?_eq_some_iff.mpr hmem)
  · intro hkey value hvalue
    exact hkey (List.mem_map.mpr ⟨_, get?_eq_some_iff.mp hvalue, rfl⟩)

/-- The entries are the keys in order, each with its value. -/
theorem entries_eq_filterMap (map : OrderedMap κ α) :
    map.entries = map.keys.filterMap fun key ↦ (map.get? key).map fun value ↦ (key, value) := by
  have hself : map.entries.filterMap (fun entry ↦ (map.get? entry.1).map fun value ↦
      (entry.1, value)) = map.entries.filterMap some := by
    apply List.filterMap_congr
    intro entry hmem
    rw [get?_eq_some_iff.mpr hmem]
    rfl
  rw [List.filterMap_some] at hself
  rw [keys, List.filterMap_map]
  exact hself.symm

/-- Maps with the same keys in the same order and the same values are equal. -/
theorem eq_of_keys_eq {map other : OrderedMap κ α} (hkeys : map.keys = other.keys)
    (h : ∀ entry, entry ∈ map.entries ↔ entry ∈ other.entries) : map = other := by
  have hget : map.get? = other.get? := by
    funext key
    apply Option.ext
    intro value
    rw [get?_eq_some_iff, get?_eq_some_iff, h]
  apply ext_entries
  rw [entries_eq_filterMap, entries_eq_filterMap, hkeys, hget]

/-- An insertion enters its own pair and keeps the entries of all other keys. -/
theorem mem_entries_insert {map : OrderedMap κ α} {key : κ} {value : α} {entry : κ × α} :
    entry ∈ (map.insert key value).entries ↔
      entry = (key, value) ∨ entry ∈ map.entries ∧ entry.1 ≠ key := by
  obtain ⟨k, v⟩ := entry
  rw [← get?_eq_some_iff, get?_insert, ← get?_eq_some_iff]
  by_cases hk : k = key
  · simp [hk, eq_comm]
  · simp [hk]

private theorem mem_entries_foldl {pairs : List (κ × α)} {map : OrderedMap κ α} {entry : κ × α}
    (h : entry ∈ (pairs.foldl (fun map pair ↦ map.insert pair.1 pair.2) map).entries) :
    entry ∈ map.entries ∨ entry ∈ pairs := by
  induction pairs generalizing map with
  | nil => exact .inl h
  | cons pair rest ih =>
    rcases ih h with hmap | hrest
    · rcases mem_entries_insert.mp hmap with rfl | ⟨hmem, _⟩
      · exact .inr (List.mem_cons_self ..)
      · exact .inl hmem
    · exact .inr (List.mem_cons_of_mem _ hrest)

/-- A map made from pairs has no other entries. -/
theorem mem_of_mem_entries_ofList {pairs : List (κ × α)} {entry : κ × α}
    (h : entry ∈ (ofList pairs).entries) : entry ∈ pairs := by
  rcases mem_entries_foldl h with hempty | hpairs
  · cases hempty
  · exact hpairs

private theorem writeEntry_of_not_mem {key : κ} (value : α) {entries : List (κ × α)}
    (h : key ∉ entries.map Prod.fst) :
    writeEntry key value entries = entries ++ [(key, value)] := by
  induction entries with
  | nil => rfl
  | cons entry rest ih =>
    rw [List.map_cons, List.mem_cons, not_or] at h
    rw [writeEntry, if_neg (Ne.symm h.1), ih h.2]
    rfl

/-- A new key is entered at the end. -/
theorem entries_insert_of_not_mem {map : OrderedMap κ α} {key : κ} (h : key ∉ map.keys)
    (value : α) : (map.insert key value).entries = map.entries ++ [(key, value)] :=
  writeEntry_of_not_mem value h

/-- Giving a key the value that it has changes nothing. -/
theorem insert_of_get?_eq_some {map : OrderedMap κ α} {key : κ} {value : α}
    (h : map.get? key = some value) : map.insert key value = map := by
  have hwrite : ∀ entries : List (κ × α), entries.lookup key = some value →
      writeEntry key value entries = entries := by
    intro entries
    induction entries with
    | nil =>
      intro hlookup
      cases hlookup
    | cons entry rest ih =>
      intro hlookup
      obtain ⟨other, present⟩ := entry
      by_cases hother : other = key
      · subst hother
        rw [List.lookup_cons_self] at hlookup
        cases hlookup
        simp [writeEntry]
      · rw [List.lookup_cons, beq_eq_false_iff_ne.mpr (Ne.symm hother)] at hlookup
        rw [writeEntry, if_neg hother, ih hlookup]
  exact ext_entries (hwrite map.entries h)

private theorem entries_foldl {pairs : List (κ × α)} (map : OrderedMap κ α)
    (h : ((map.entries ++ pairs).map Prod.fst).Nodup) :
    (pairs.foldl (fun map pair ↦ map.insert pair.1 pair.2) map).entries = map.entries ++ pairs := by
  induction pairs generalizing map with
  | nil => simp
  | cons pair rest ih =>
    have hnew : pair.1 ∉ map.entries.map Prod.fst := by
      intro hmem
      rw [List.map_append, List.map_cons, List.nodup_append] at h
      exact h.2.2 pair.1 hmem pair.1 List.mem_cons_self rfl
    have hinsert : (map.insert pair.1 pair.2).entries = map.entries ++ [pair] :=
      entries_insert_of_not_mem hnew pair.2
    rw [List.foldl_cons, ih _ (by rw [hinsert]; simpa using h), hinsert, List.append_assoc]
    rfl

/-- A map made from pairs with distinct keys has these entries in this order. -/
theorem entries_ofList {pairs : List (κ × α)} (h : (pairs.map Prod.fst).Nodup) :
    (ofList pairs).entries = pairs :=
  entries_foldl empty h

@[simp]
theorem ofList_entries (map : OrderedMap κ α) : ofList map.entries = map :=
  ext_entries (entries_ofList map.distinct)

/-- A key that is not among the pairs keeps what it had. -/
theorem get?_foldl_of_not_mem {pairs : List (κ × α)} {key : κ}
    (h : key ∉ pairs.map Prod.fst) (map : OrderedMap κ α) :
    (pairs.foldl (fun map pair ↦ map.insert pair.1 pair.2) map).get? key = map.get? key := by
  induction pairs generalizing map with
  | nil => rfl
  | cons pair rest ih =>
    rw [List.map_cons, List.mem_cons, not_or] at h
    rw [List.foldl_cons, ih h.2, get?_insert, if_neg h.1]

/-- Of the pairs with one key, the last one that is inserted gives the value. -/
theorem get?_foldl_of_last {front rest : List (κ × α)} {key : κ} (value : α)
    (h : key ∉ rest.map Prod.fst) (map : OrderedMap κ α) :
    ((front ++ (key, value) :: rest).foldl (fun map pair ↦ map.insert pair.1 pair.2) map).get? key =
      some value := by
  rw [List.foldl_append, List.foldl_cons, get?_foldl_of_not_mem h, get?_insert, if_pos rfl]

/-- Of the pairs with one key, the last gives the value. -/
theorem get?_ofList_of_last {front rest : List (κ × α)} {key : κ} (value : α)
    (h : key ∉ rest.map Prod.fst) :
    (ofList (front ++ (key, value) :: rest)).get? key = some value :=
  get?_foldl_of_last value h empty

/-- Inserting pairs keeps the order of the keys. Behind them come the new keys, each once, in the
order in which they first occur. -/
theorem keys_foldl (pairs : List (κ × α)) (map : OrderedMap κ α) :
    (pairs.foldl (fun map pair ↦ map.insert pair.1 pair.2) map).keys =
      map.keys ++ ((pairs.map Prod.fst).removeAll map.keys).eraseDups := by
  induction pairs generalizing map with
  | nil => simp
  | cons pair rest ih =>
    rw [List.foldl_cons, ih, keys_insert, List.map_cons, List.cons_removeAll]
    by_cases h : pair.1 ∈ map.keys
    · simp [h]
    · have hlater : (rest.map Prod.fst).removeAll (map.keys ++ [pair.1]) =
          ((rest.map Prod.fst).removeAll map.keys).filter fun key ↦ !key == pair.1 := by
        rw [List.removeAll, List.removeAll, List.filter_filter]
        apply List.filter_congr
        intro key _
        simp [Bool.and_comm, Bool.beq_eq_decide_eq]
      simp [h, hlater, List.eraseDups_cons]

private theorem exists_last {pairs : List (κ × α)} {key : κ} (h : key ∈ pairs.map Prod.fst) :
    ∃ front value rest, pairs = front ++ (key, value) :: rest ∧ key ∉ rest.map Prod.fst := by
  induction pairs with
  | nil => cases h
  | cons pair later ih =>
    by_cases hlater : key ∈ later.map Prod.fst
    · obtain ⟨front, value, rest, hsplit, hlast⟩ := ih hlater
      exact ⟨pair :: front, value, rest, by rw [hsplit, List.cons_append], hlast⟩
    · rcases List.mem_cons.mp h with rfl | hmem
      · exact ⟨[], pair.2, later, rfl, hlater⟩
      · exact absurd hmem hlater

/-- A map made from pairs has of every key the last pair with it, and no other entries. -/
theorem mem_entries_ofList_iff {pairs : List (κ × α)} {entry : κ × α} :
    entry ∈ (ofList pairs).entries ↔
      ∃ front rest, pairs = front ++ entry :: rest ∧ entry.1 ∉ rest.map Prod.fst := by
  constructor
  · intro hentry
    have hkey : entry.1 ∈ pairs.map Prod.fst :=
      List.mem_map_of_mem (mem_of_mem_entries_ofList hentry)
    obtain ⟨front, value, rest, rfl, hlast⟩ := exists_last hkey
    have hvalue : some value = some entry.2 := by
      rw [← get?_ofList_of_last value hlast]
      exact get?_eq_some_iff.mpr hentry
    cases hvalue
    exact ⟨front, rest, rfl, hlast⟩
  · rintro ⟨front, rest, rfl, hlast⟩
    exact get?_eq_some_iff.mp (get?_ofList_of_last entry.2 hlast)

section Values

variable {β : Type} (view : α → β)

private theorem writeEntry_map (key : κ) (value : α) (entries : List (κ × α)) :
    writeEntry key (view value) (entries.map fun entry ↦ (entry.1, view entry.2)) =
      (writeEntry key value entries).map fun entry ↦ (entry.1, view entry.2) := by
  induction entries with
  | nil => rfl
  | cons entry rest ih =>
    by_cases h : entry.1 = key
    · simp [writeEntry, h]
    · simp [writeEntry, h, ih]

private theorem entries_foldl_map (pairs : List (κ × α)) {map : OrderedMap κ α}
    {other : OrderedMap κ β}
    (h : other.entries = map.entries.map fun entry ↦ (entry.1, view entry.2)) :
    ((pairs.map fun pair ↦ (pair.1, view pair.2)).foldl
      (fun map pair ↦ map.insert pair.1 pair.2) other).entries =
        (pairs.foldl (fun map pair ↦ map.insert pair.1 pair.2) map).entries.map
          fun entry ↦ (entry.1, view entry.2) := by
  induction pairs generalizing map other with
  | nil => exact h
  | cons pair rest ih =>
    apply ih
    change writeEntry pair.1 (view pair.2) other.entries = _
    rw [h, writeEntry_map]
    rfl

/-- Viewing the values of pairs and making a map of them can be done in either order. -/
theorem entries_ofList_map (pairs : List (κ × α)) :
    (ofList (pairs.map fun pair ↦ (pair.1, view pair.2))).entries =
      (ofList pairs).entries.map fun entry ↦ (entry.1, view entry.2) :=
  entries_foldl_map view pairs rfl

end Values

theorem entries_sorted (map : OrderedMap String α) :
    map.sorted.entries = map.entries.mergeSort fun a b ↦ decide (a.1 ≤ b.1) := rfl

/-- Sorting keeps the entries. -/
theorem mem_entries_sorted {map : OrderedMap String α} {entry : String × α} :
    entry ∈ map.sorted.entries ↔ entry ∈ map.entries :=
  (entries_sorted_perm map).mem_iff

/-- The keys of a sorted map increase. -/
theorem pairwise_keys_sorted (map : OrderedMap String α) :
    map.sorted.keys.Pairwise (· < ·) := by
  have hle : map.sorted.entries.Pairwise fun a b ↦ decide (a.1 ≤ b.1) = true := by
    apply List.pairwise_mergeSort
    · intro a b c hab hbc
      simp only [decide_eq_true_eq] at hab hbc ⊢
      exact String.le_trans hab hbc
    · intro a b
      simpa using String.le_total a.1 b.1
  have hne : map.sorted.entries.Pairwise fun a b ↦ a.1 ≠ b.1 :=
    List.pairwise_map.mp map.sorted.distinct
  rw [keys, List.pairwise_map]
  refine (hle.and hne).imp ?_
  intro a b ⟨hab, hdiffer⟩
  by_contra hnot
  exact hdiffer (String.le_antisymm (of_decide_eq_true hab) (String.not_lt.mp hnot))

/-- The order of increasing keys is the only one. -/
theorem eq_of_keys_pairwise {map other : OrderedMap String α} (hmap : map.keys.Pairwise (· < ·))
    (hother : other.keys.Pairwise (· < ·))
    (h : ∀ entry, entry ∈ map.entries ↔ entry ∈ other.entries) : map = other := by
  apply eq_of_keys_eq _ h
  have hmem : ∀ key, key ∈ map.keys ↔ key ∈ other.keys := by
    intro key
    simp only [keys, List.mem_map, h]
  apply List.Perm.eq_of_pairwise _ hmap hother
  · exact (List.perm_ext_iff_of_nodup map.distinct other.distinct).mpr hmem
  · intro a b _ _ hab hba
    exact absurd (String.lt_trans hab hba) (String.lt_irrefl a)

/-- A map whose keys increase is sorted. -/
theorem sorted_of_pairwise {map : OrderedMap String α} (h : map.keys.Pairwise (· < ·)) :
    map.sorted = map := by
  apply ext_entries
  apply List.mergeSort_of_pairwise
  refine (List.pairwise_map.mp h).imp ?_
  intro a b hlt
  rw [decide_eq_true_eq, ← String.not_lt]
  exact fun hback ↦ String.lt_irrefl _ (String.lt_trans hlt hback)

/-! ## Order aside -/

/-- Two maps have the same entries, whatever their order, exactly when every key has the same value
in both. -/
theorem sameEntries_iff [DecidableEq α] {map other : OrderedMap κ α} :
    map.sameEntries other = true ↔ ∀ key, map.get? key = other.get? key := by
  rw [sameEntries, Bool.and_eq_true, List.all_eq_true]
  simp only [beq_iff_eq, get?_eq_some_iff]
  constructor
  · rintro ⟨hsize, hsub⟩ key
    have hperm : map.entries.Perm other.entries :=
      (List.subperm_of_subset (nodup_entries map) hsub).perm_of_length_le (Nat.le_of_eq hsize.symm)
    apply Option.ext
    intro value
    rw [get?_eq_some_iff, get?_eq_some_iff, hperm.mem_iff]
  · intro hget
    have hmem : ∀ entry, entry ∈ map.entries ↔ entry ∈ other.entries := by
      rintro ⟨key, value⟩
      rw [← get?_eq_some_iff, ← get?_eq_some_iff, hget]
    have hperm : map.entries.Perm other.entries :=
      (List.perm_ext_iff_of_nodup (nodup_entries map) (nodup_entries other)).mpr hmem
    exact ⟨hperm.length_eq, fun entry hentry ↦ (hmem entry).mp hentry⟩

end SelectorCompiler.OrderedMap
