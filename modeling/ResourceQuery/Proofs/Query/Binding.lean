import ResourceQuery.Query.Binding
import ResourceQuery.Proofs.Store.Rows

/-!
# Key maps and the predicates they amount to

A key map amounts to a predicate: the user's filter, and one equality for every bound type whose
key the schema knows.  A map with more entries amounts to a stronger predicate, the map beneath a
row grows with the map above it, and a row that satisfies the predicate of a map contradicts no
part of the map.
-/

namespace ResourceQuery

/-! ## Entries of key maps -/

namespace KeyMap

/-- `n` has every entry of `m`. -/
def Extends (n m : KeyMap) : Prop := ∀ t b, m.get? t = some b → n.get? t = some b

theorem Extends.refl (m : KeyMap) : m.Extends m := fun _ _ h => h

theorem Extends.trans {l m n : KeyMap} (hn : n.Extends m) (hm : m.Extends l) : n.Extends l :=
  fun t b h => hn t b (hm t b h)

theorem bound?_eq_some_iff {m : KeyMap} {t : ResourceType} {key : String} :
    m.bound? t = some key ↔ m.get? t = some (.bound key) := by
  rw [bound?, Option.bind_eq_bind, Option.bind_eq_some_iff]
  constructor
  · rintro ⟨b, hm, hb⟩
    cases b <;> simp_all [KeyBinding.value?]
  · exact fun hm => ⟨_, hm, rfl⟩

theorem Extends.bound? {m n : KeyMap} (h : n.Extends m) {t : ResourceType} {key : String}
    (hm : m.bound? t = some key) : n.bound? t = some key :=
  bound?_eq_some_iff.2 (h t _ (bound?_eq_some_iff.1 hm))

end KeyMap

namespace Cluster

variable (c : Cluster) (row : Resource)

theorem get?_inherited (m : KeyMap) (t : ResourceType) :
    (c.inherited row m).get? t =
      (m.get? t).bind fun b => (b.value? <|> c.rowKey? row t).map .bound := by
  have hsorted := m.sorted.filterMap fun t b =>
    (b.value? <|> c.rowKey? row t).map KeyBinding.bound
  have hget := Entries.get?_filterMap
    (fun t b => (b.value? <|> c.rowKey? row t).map KeyBinding.bound) m.sorted t
  simp only [Option.map_map, Function.comp_def] at hsorted hget
  exact (SortedMap.get?_ofList hsorted t).trans hget

/-- Beneath a row its own type is bound to its own key, if it has one, and the other types as
they are inherited. -/
theorem get?_rowKeyMap (m : KeyMap) (t : ResourceType) :
    (c.rowKeyMap row m).get? t =
      (if t = row.type then (c.rowKey? row t).map .bound else none).or
        ((m.get? t).bind fun b => (b.value? <|> c.rowKey? row t).map .bound) := by
  rw [← get?_inherited]
  cases h : c.rowKey? row row.type with
  | none =>
    by_cases ht : t = row.type
    · simp [rowKeyMap, ht, h]
    · simp [rowKeyMap, ht, h]
  | some key =>
    by_cases ht : t = row.type
    · simp [rowKeyMap, ht, h]
    · simp [rowKeyMap, ht, h]

theorem rowKeyMap_extends {m n : KeyMap} (h : n.Extends m) :
    (c.rowKeyMap row n).Extends (c.rowKeyMap row m) := by
  intro t b hb
  rw [get?_rowKeyMap, Option.or_eq_some_iff] at hb ⊢
  rcases hb with hb | ⟨hnone, hb⟩
  · exact .inl hb
  · obtain ⟨b', hm, hb'⟩ := Option.bind_eq_some_iff.1 hb
    exact .inr ⟨hnone, Option.bind_eq_some_iff.2 ⟨b', h t b' hm, hb'⟩⟩

/-- A row binds its own type to its own key. -/
theorem bound?_rowKeyMap_self {key : String} (h : c.rowKey? row row.type = some key)
    (m : KeyMap) : (c.rowKeyMap row m).bound? row.type = some key := by
  rw [KeyMap.bound?_eq_some_iff, get?_rowKeyMap]
  simp [h]

/-- A type stays bound beneath a row unless the row rebinds it by a key of its own. -/
theorem bound?_rowKeyMap_of_bound {m : KeyMap} {t : ResourceType} {key : String}
    (hm : m.bound? t = some key) (hrow : row.type = t → c.rowKey? row t = none) :
    (c.rowKeyMap row m).bound? t = some key := by
  rw [KeyMap.bound?_eq_some_iff, get?_rowKeyMap, KeyMap.bound?_eq_some_iff.1 hm]
  by_cases ht : t = row.type
  · simp [← ht, hrow ht.symm, KeyBinding.value?]
  · simp [ht, KeyBinding.value?]

/-- What a row binds beneath it is decided by its type and the keys that it carries. -/
theorem rowKeyMap_congr {row row' : Resource} (htype : row.type = row'.type)
    (hkeys : c.rowKey? row = c.rowKey? row') : c.rowKeyMap row = c.rowKeyMap row' := by
  funext m
  simp only [rowKeyMap, inherited, htype, hkeys]

theorem conflicts_congr {row row' : Resource} (hkeys : c.rowKey? row = c.rowKey? row') :
    c.conflicts row = c.conflicts row' := by
  funext m
  simp only [conflicts, hkeys]

theorem conflicts_eq_true_iff {keyMap : KeyMap} :
    c.conflicts row keyMap = true ↔ ∃ t expected actual, keyMap.bound? t = some expected ∧
      c.rowKey? row t = some actual ∧ actual ≠ expected := by
  simp only [conflicts, List.any_eq_true, Prod.exists, ← SortedMap.get?_eq_some_iff,
    KeyMap.bound?_eq_some_iff]
  constructor
  · rintro ⟨t, b, hb, h⟩
    cases b with
    | unbound => simp [KeyBinding.value?] at h
    | bound expected =>
      cases hact : c.rowKey? row t with
      | none => simp [KeyBinding.value?, hact] at h
      | some actual =>
        exact ⟨t, expected, actual, hb, hact, by simpa [KeyBinding.value?, hact] using h⟩
  · rintro ⟨t, expected, actual, hb, hact, hne⟩
    exact ⟨t, _, hb, by simp [KeyBinding.value?, hact, hne]⟩

theorem conflicts_eq_false_iff {keyMap : KeyMap} :
    c.conflicts row keyMap = false ↔ ∀ t expected actual, keyMap.bound? t = some expected →
      c.rowKey? row t = some actual → actual = expected := by
  rw [Bool.eq_false_iff, ne_eq, conflicts_eq_true_iff]
  simp only [not_exists, not_and, ne_eq, Decidable.not_not]

end Cluster

/-! ## The predicate of a key map -/

namespace QueryNode

variable (n : QueryNode) (c : Cluster)

/-- The bindings beneath a row take precedence over those with which the node was made. -/
theorem bindingsUnder_extends (rowKeys : KeyMap) : (n.bindingsUnder rowKeys).Extends rowKeys := by
  intro t b hb
  rw [bindingsUnder, SortedMap.get?_extend, hb]
  rfl

theorem mem_boundKeys {keyMap : KeyMap} {id : PropertyId} {key : String} :
    (id, key) ∈ n.boundKeys c keyMap ↔
      ∃ t, keyMap.bound? t = some key ∧ (n.schema c).keyOf? t = some id := by
  simp only [boundKeys, List.mem_eraseDups, List.mem_filterMap, Prod.exists,
    ← SortedMap.get?_eq_some_iff, KeyMap.bound?_eq_some_iff]
  constructor
  · rintro ⟨t, b, hb, h⟩
    obtain ⟨id', hid, h⟩ := Option.bind_eq_some_iff.1 h
    obtain ⟨key', hkey, h⟩ := Option.bind_eq_some_iff.1 h
    obtain ⟨rfl, rfl⟩ : id' = id ∧ key' = key := by simpa using h
    cases b with
    | unbound => simp [KeyBinding.value?] at hkey
    | bound value =>
      obtain rfl : value = key' := by simpa [KeyBinding.value?] using hkey
      exact ⟨t, hb, hid⟩
  · rintro ⟨t, hb, hid⟩
    exact ⟨t, _, hb, by simp [hid, KeyBinding.value?]⟩

theorem predicateFor_eq_none_iff {keyMap : KeyMap} :
    n.predicateFor c keyMap = none ↔ n.userPredicate = none ∧ n.boundKeys c keyMap = [] := by
  have hkeys : n.keyPredicate c keyMap = none ↔ n.boundKeys c keyMap = [] := by
    rcases h : n.boundKeys c keyMap with _ | ⟨k, _ | ⟨l, ks⟩⟩ <;>
      simp [keyPredicate, h, Predicate.conjunction, Predicate.collapse]
  rw [← hkeys]
  cases hk : n.keyPredicate c keyMap <;> cases hu : n.userPredicate <;>
    simp [predicateFor, hk, hu]

theorem admits_keyPredicate {keyMap : KeyMap} {x : Resource} :
    Predicate.admits (n.keyPredicate c keyMap) x = true ↔
      ∀ t key id, keyMap.bound? t = some key → (n.schema c).keyOf? t = some id →
        x.key? id = some key := by
  simp only [keyPredicate, Predicate.admits_conjunction, List.forall_mem_map, Prod.forall,
    mem_boundKeys, Predicate.holds_equals_string]
  constructor
  · exact fun h t key id hb hid => h id key ⟨t, hb, hid⟩
  · rintro h id key ⟨t, hb, hid⟩
    exact h t key id hb hid

/-- A row satisfies the predicate of a key map when it passes the user's filter and carries
every bound key that the schema knows. -/
theorem admits_predicateFor {keyMap : KeyMap} {x : Resource} :
    Predicate.admits (n.predicateFor c keyMap) x = true ↔
      Predicate.admits n.userPredicate x = true ∧
        ∀ t key id, keyMap.bound? t = some key → (n.schema c).keyOf? t = some id →
          x.key? id = some key := by
  rw [← admits_keyPredicate]
  cases hk : n.keyPredicate c keyMap <;> cases hu : n.userPredicate <;>
    simp [predicateFor, hk, hu, Predicate.admits, Predicate.holds, Predicate.allHold]

/-- A map with more entries admits fewer rows. -/
theorem admits_predicateFor_of_extends {m m' : KeyMap} (h : m'.Extends m) {x : Resource}
    (hx : Predicate.admits (n.predicateFor c m') x = true) :
    Predicate.admits (n.predicateFor c m) x = true := by
  rw [admits_predicateFor] at hx ⊢
  exact ⟨hx.1, fun t key id hb hid => hx.2 t key id (h.bound? hb) hid⟩

/-- A row that satisfies the predicate of a key map contradicts no part of the map. -/
theorem conflicts_eq_false_of_admits {m m' : KeyMap} (h : m'.Extends m) {x : Resource}
    (ht : x.type = n.type) (hx : Predicate.admits (n.predicateFor c m') x = true) :
    c.conflicts x m = false := by
  refine (c.conflicts_eq_false_iff x).2 fun t expected actual hb hact => ?_
  obtain ⟨id, hid, hact⟩ := Option.bind_eq_some_iff.1 hact
  -- A key that a row has for a bound type is among those that the predicate compares.
  have hkey := ((n.admits_predicateFor c).1 hx).2 t expected id (h.bound? hb)
    (by rw [schema, ← ht]; exact hid)
  exact Option.some.inj (hact.symm.trans hkey)

theorem mem_mentions_predicateFor {keyMap : KeyMap} {id : PropertyId} :
    id ∈ Predicate.mentions (n.predicateFor c keyMap) ↔
      id ∈ Predicate.mentions n.userPredicate ∨
        id ∈ Predicate.mentions (n.keyPredicate c keyMap) := by
  cases hk : n.keyPredicate c keyMap <;> cases hu : n.userPredicate <;>
    simp [predicateFor, hk, hu, Predicate.mentions, Predicate.mentioned, Predicate.mentionedIn]

/-- A key map mentions nothing but key properties of the schema. -/
theorem mem_keys_of_mem_mentions {keyMap : KeyMap} {id : PropertyId}
    (h : id ∈ Predicate.mentions (n.keyPredicate c keyMap)) :
    id ∈ (n.schema c).keys.values := by
  obtain ⟨p, hp, hid⟩ := Predicate.mem_mentions_conjunction.1 h
  obtain ⟨⟨id', key⟩, hmem, rfl⟩ := List.mem_map.1 hp
  obtain ⟨t, -, ht⟩ := (n.mem_boundKeys c).1 hmem
  obtain rfl : id = id' := by simpa [Predicate.mentioned] using hid
  exact SortedMap.mem_values_iff.2 ⟨t, ht⟩

/-! ## The key maps beneath rows -/

theorem mem_rowKeyMaps {rows : List Resource} {m : KeyMap} :
    m ∈ n.rowKeyMaps c rows ↔ ∃ row ∈ rows, ∃ keyMap ∈ n.keyMaps,
      c.conflicts row keyMap = false ∧ c.rowKeyMap row keyMap = m := by
  simp only [rowKeyMaps, List.mem_eraseDups, List.mem_flatMap, List.mem_map, List.mem_filter,
    Bool.not_eq_true', and_assoc]
  rfl

end QueryNode
end ResourceQuery
