import ResourceQuery.Collection.Entries

/-!
# Finite maps in key order

A `SortedMap` is a list of entries with strictly increasing keys.  Two maps with the same
look-up are equal, so a map is determined by what it stores and not by how it was built.
-/

namespace ResourceQuery

universe u v

/-- A finite map, kept in the order of its keys. -/
structure SortedMap (κ : Type u) (α : Type v) [Ord κ] where
  /-- The entries, in increasing order of their keys. -/
  entries : List (κ × α)
  sorted : Entries.Sorted entries

namespace SortedMap

variable {κ : Type u} {α : Type v} [Ord κ]

instance [DecidableEq κ] [DecidableEq α] : DecidableEq (SortedMap κ α) := fun m n =>
  decidable_of_iff (m.entries = n.entries) (by cases m; cases n; simp)

/-- The map without entries. -/
def empty : SortedMap κ α := ⟨[], Entries.sorted_nil⟩

instance : EmptyCollection (SortedMap κ α) := ⟨empty⟩

instance : Inhabited (SortedMap κ α) := ⟨empty⟩

/-- The value at a key, if there is one. -/
def get? (m : SortedMap κ α) (k : κ) : Option α := Entries.get? k m.entries

/-- The keys in increasing order. -/
def keys (m : SortedMap κ α) : List κ := m.entries.map (·.1)

/-- The values, in the order of their keys. -/
def values (m : SortedMap κ α) : List α := m.entries.map (·.2)

/-- The number of entries. -/
def size (m : SortedMap κ α) : Nat := m.entries.length

/-- Whether the map has no entry. -/
def isEmpty (m : SortedMap κ α) : Bool := m.entries.isEmpty

/-- The entries that pass a test. -/
def filter (keep : κ → α → Bool) (m : SortedMap κ α) : SortedMap κ α :=
  ⟨m.entries.filter fun p => keep p.1 p.2, m.sorted.sublist List.filter_sublist⟩

@[simp] theorem get?_empty (k : κ) : (∅ : SortedMap κ α).get? k = none := rfl

theorem get?_eq_some_iff [Std.LawfulEqOrd κ] {m : SortedMap κ α} {k : κ} {a : α} :
    m.get? k = some a ↔ (k, a) ∈ m.entries :=
  Entries.get?_eq_some_iff m.sorted

theorem mem_keys_iff [Std.LawfulEqOrd κ] {m : SortedMap κ α} {k : κ} :
    k ∈ m.keys ↔ ∃ a, m.get? k = some a := by
  simp [keys, get?_eq_some_iff]

theorem mem_values_iff [Std.LawfulEqOrd κ] {m : SortedMap κ α} {a : α} :
    a ∈ m.values ↔ ∃ k, m.get? k = some a := by
  simp [values, get?_eq_some_iff]

theorem get?_filter [Std.LawfulEqOrd κ] (m : SortedMap κ α) (keep : κ → α → Bool) (k : κ) :
    (m.filter keep).get? k = (m.get? k).filter (keep k) := by
  refine Option.ext fun a => ?_
  rw [get?_eq_some_iff, Option.filter_eq_some_iff, get?_eq_some_iff]
  simp [filter]

variable [Std.TransOrd κ]

/-- Store a value at a key, replacing what was there. -/
def insert (m : SortedMap κ α) (k : κ) (a : α) : SortedMap κ α :=
  ⟨Entries.insert k a m.entries, m.sorted.insert k a⟩

/-- Store a value at a key that has none. -/
def insertIfNew (m : SortedMap κ α) (k : κ) (a : α) : SortedMap κ α :=
  match m.get? k with
  | some _ => m
  | none => m.insert k a

/-- The map of a list of pairs; of two pairs with one key the later counts. -/
def ofList (pairs : List (κ × α)) : SortedMap κ α :=
  ⟨Entries.ofList pairs, Entries.sorted_ofList pairs⟩

/-- The first map with every entry of the second stored on top. -/
def extend (m n : SortedMap κ α) : SortedMap κ α :=
  n.entries.foldl (fun m p => m.insert p.1 p.2) m

variable [Std.LawfulEqOrd κ]

@[ext] theorem ext_get? {m n : SortedMap κ α} (h : ∀ k, m.get? k = n.get? k) : m = n := by
  obtain ⟨xs, hx⟩ := m
  obtain ⟨ys, hy⟩ := n
  obtain rfl : xs = ys := hx.ext hy h
  rfl

@[simp] theorem get?_insert [DecidableEq κ] (m : SortedMap κ α) (k k' : κ) (a : α) :
    (m.insert k a).get? k' = if k' = k then some a else m.get? k' :=
  Entries.get?_insert k k' a m.entries

theorem mem_of_get?_ofList {pairs : List (κ × α)} {k : κ} {a : α}
    (h : (ofList pairs).get? k = some a) : (k, a) ∈ pairs :=
  Entries.mem_of_mem_ofList (get?_eq_some_iff.1 h)

theorem get?_ofList [DecidableEq κ] {pairs : List (κ × α)} (h : Entries.Sorted pairs) (k : κ) :
    (ofList pairs).get? k = Entries.get? k pairs :=
  Entries.get?_ofList h k

/-- A later entry of the second map wins over the first map. -/
theorem get?_extend [DecidableEq κ] (m n : SortedMap κ α) (k : κ) :
    (m.extend n).get? k = (n.get? k).or (m.get? k) := by
  have entries_foldl : ∀ (pairs : List (κ × α)) (m : SortedMap κ α),
      (pairs.foldl (fun m p => m.insert p.1 p.2) m).entries =
        pairs.foldl (fun es p => Entries.insert p.1 p.2 es) m.entries := by
    intro pairs
    induction pairs with
    | nil => exact fun _ => rfl
    | cons p rest ih => exact fun m => ih (m.insert p.1 p.2)
  rw [get?, extend, entries_foldl, Entries.get?_foldl_insert n.sorted]
  rfl

end SortedMap
end ResourceQuery
