import ResourceQuery.Proofs.Store.Refusal

/-!
# Required ancestors

A predicate that requires a value at a property where the key of another type stands names an
instance of that type, and a read is refused when this instance is not stored.  One property can
hold the keys of several types.  Then the read looks for an instance of the first of them alone, in
the order of their names: that one is stored whenever the read is answered, and of the others none
need be.
-/

namespace ResourceQuery

theorem Schema.mem_entries_iff {schema : Schema} {t : ResourceType} {id : PropertyId} :
    (t, id) ∈ schema.keys.entries ↔ schema.keyOf? t = some id :=
  SortedMap.get?_eq_some_iff.symm

namespace Store

variable {s : Store} {schema : Schema} {t a : ResourceType} {id : PropertyId} {key : String}

/-! ## Stored keys -/

/-- Some stored row of the type has the key as its own. -/
def HasKey (s : Store) (t : ResourceType) (key : String) : Prop :=
  ∃ id, (s.schema t).keyOf? t = some id ∧ ∃ r ∈ s.rows t, r.key? id = some key

theorem hasInstance_iff : s.hasInstance t key = true ↔ s.HasKey t key := by
  unfold hasInstance HasKey
  cases htable : s.table? t with
  | none => simp [rows, htable]
  | some table =>
    rw [schema_of_table? htable, rows_of_table? htable]
    cases hkey : table.schema.keyOf? t with
    | none => simp [hkey]
    | some id => simp [hkey]

instance : Decidable (s.HasKey t key) := decidable_of_iff _ hasInstance_iff

/-! ## The type that is looked up -/

theorem exists_parentType? (ha : a ≠ t) (hid : schema.keyOf? a = some id) :
    ∃ b, parentType? schema t id = some b := by
  refine Option.ne_none_iff_exists'.1 fun h => ?_
  have hnone := List.find?_eq_none.1 (Option.map_eq_none_iff.1 h) (a, id)
    (Schema.mem_entries_iff.2 hid)
  simp [ha] at hnone

/-- The type that is looked up has its key at the property, and no other such type comes before
it. -/
theorem first_of_parentType? (h : parentType? schema t id = some a) :
    (a ≠ t ∧ schema.keyOf? a = some id) ∧
      ∀ b, b ≠ t → schema.keyOf? b = some id → compare b a ≠ .lt := by
  obtain ⟨⟨a', id'⟩, hfind, rfl⟩ := Option.map_eq_some_iff.1 h
  obtain ⟨hp, before, after, heq, hbefore⟩ := List.find?_eq_some_iff_append.1 hfind
  obtain ⟨rfl, hne⟩ : id' = id ∧ a' ≠ t := by simpa using hp
  have hsorted := schema.keys.sorted
  rw [heq] at hsorted
  refine ⟨⟨hne, Schema.mem_entries_iff.1 ?_⟩, fun b hb hid hlt => ?_⟩
  · rw [heq]
    exact List.mem_append_cons_self
  · rw [← Schema.mem_entries_iff, heq] at hid
    rcases List.mem_append.1 hid with hmem | hmem
    · simpa [hb] using hbefore (b, id') hmem
    · rcases List.mem_cons.1 hmem with hself | hmem
      · obtain rfl : b = a' := congrArg Prod.fst hself
        rw [Std.ReflOrd.compare_self] at hlt
        cases hlt
      · have hgt := (List.pairwise_cons.1 (List.pairwise_append.1 hsorted).2.1).1 _ hmem
        cases hlt.symm.trans (Std.OrientedCmp.gt_of_lt hgt)

/-- Of the types other than `t` whose key stands at a property, the first one is looked up. -/
theorem parentType?_eq_some_iff : parentType? schema t id = some a ↔
    (a ≠ t ∧ schema.keyOf? a = some id) ∧
      ∀ b, b ≠ t → schema.keyOf? b = some id → compare b a ≠ .lt := by
  refine ⟨first_of_parentType?, fun ⟨⟨hne, hid⟩, hleast⟩ => ?_⟩
  obtain ⟨a', h⟩ := exists_parentType? hne hid
  obtain ⟨⟨hne', hid'⟩, hleast'⟩ := first_of_parentType? h
  -- Neither of the two types comes before the other.
  cases hcompare : compare a' a with
  | lt => exact absurd hcompare (hleast a' hne' hid')
  | eq => rw [h, Std.LawfulEqOrd.eq_of_compare hcompare]
  | gt => exact absurd (Std.OrientedCmp.lt_of_gt hcompare) (hleast' a hne hid)

theorem missingParent?_eq_none_iff {required : List (PropertyId × Json)} :
    s.missingParent? schema t required = none ↔
      ∀ id value key a, (id, value) ∈ required → value.keyText = some key →
        parentType? schema t id = some a → s.HasKey a key := by
  unfold missingParent?
  rw [List.findSome?_eq_none_iff]
  constructor
  · intro h id value key a hmem hkey hparent
    have hnone := h (id, value) hmem
    simp only [hparent, hkey] at hnone
    rw [← hasInstance_iff]
    simpa using hnone
  · rintro h ⟨id, value⟩ hmem
    simp only
    cases hparent : parentType? schema t id with
    | none => rfl
    | some a =>
      cases hkey : value.keyText with
      | none => rfl
      | some key =>
        have hstored := hasInstance_iff.2 (h id value key a hmem hkey hparent)
        simp [hstored]

/-! ## What an answered read says of ancestors -/

theorem namesStored_of_read {request : Request} {p : Option Predicate} {answer : List Resource}
    (h : s.read t request p = .ok answer) : s.NamesStored t p := by
  obtain ⟨table, htable, -⟩ := read_eq_ok h
  exact (read_ok_iff htable (unsupported_of_read htable h)).1 ⟨answer, h⟩

/-- A row with the key at the property. -/
def keyRow (t : ResourceType) (id : PropertyId) (key : String) : Resource :=
  ⟨t, SortedMap.insert ∅ id (.string key)⟩

theorem key?_keyRow : (keyRow t id key).key? id = some key := by
  simp [keyRow, Resource.key?, Resource.value?, Json.keyText]

/-- A store that knows two types and has a row of each under the same key. -/
def keyStore (schema : Schema) (t a : ResourceType) (id : PropertyId) (key : String) : Store where
  tables := (SortedMap.insert ∅ a ⟨(∅ : Schema).withKey a id, none, [keyRow a id key]⟩).insert t
    ⟨schema, none, [keyRow t id key]⟩
  ofType b table h := by
    rw [SortedMap.get?_insert, SortedMap.get?_insert] at h
    split at h
    · rename_i hb
      obtain rfl := Option.some.inj h
      simp [Table.OfType, keyRow, hb]
    · split at h
      · rename_i hb
        obtain rfl := Option.some.inj h
        simp [Table.OfType, keyRow, hb]
      · cases h

theorem table?_keyStore (b : ResourceType) : (keyStore schema t a id key).table? b =
    if b = t then some ⟨schema, none, [keyRow t id key]⟩
    else if b = a then some ⟨(∅ : Schema).withKey a id, none, [keyRow a id key]⟩
    else none := by
  unfold table? keyStore
  rw [SortedMap.get?_insert, SortedMap.get?_insert, SortedMap.get?_empty]

theorem hasKey_keyStore (hne : a ≠ t) : (keyStore schema t a id key).HasKey a key := by
  have htable : (keyStore schema t a id key).table? a =
      some ⟨(∅ : Schema).withKey a id, none, [keyRow a id key]⟩ := by
    rw [table?_keyStore, if_neg hne, if_pos rfl]
  rw [HasKey, schema_of_table? htable, rows_of_table? htable]
  have hown : ((∅ : Schema).withKey a id).keyOf? a = some id := by
    simp [Schema.keyOf?, Schema.withKey]
  exact ⟨id, hown, keyRow a id key, List.mem_singleton_self _, key?_keyRow⟩

/-- The store has what the read looks for, so the read is answered. -/
theorem exists_read_keyStore (key : String) (hparent : parentType? schema t id = some a) :
    ∃ answer, (keyStore schema t a id key).read t .all (some (.equals id (.string key))) =
      .ok answer := by
  have htable : (keyStore schema t a id key).table? t =
      some ⟨schema, none, [keyRow t id key]⟩ := by
    rw [table?_keyStore, if_pos rfl]
  refine (read_ok_iff htable rfl).2 fun table htable' => ?_
  obtain rfl := Option.some.inj (htable.symm.trans htable')
  constructor
  · refine missingParent?_eq_none_iff.2 fun id' value key' a' hmem hkey hparent' => ?_
    obtain ⟨rfl, rfl⟩ : id' = id ∧ value = .string key :=
      Prod.mk.inj (List.mem_singleton.1 hmem)
    obtain rfl : key = key' := Option.some.inj hkey
    obtain rfl : a = a' := Option.some.inj (hparent.symm.trans hparent')
    exact hasKey_keyStore (parentType?_eq_some_iff.1 hparent).1.1
  · have hholds : Predicate.admits (some (.equals id (.string key))) (keyRow t id key) = true :=
      Predicate.holds_equals_string.2 key?_keyRow
    have hmem : keyRow t id key ∈ Table.matching ⟨schema, none, [keyRow t id key]⟩
        (some (.equals id (.string key))) :=
      List.mem_filter.2 ⟨List.mem_singleton_self _, hholds⟩
    exact .inr (List.ne_nil_of_mem hmem)

/-- Every answered read that requires a key at a property of `t` finds the instance of an ancestor
type stored, exactly when the property stands for this type first of all other types. -/
theorem ancestors_stored_iff (ha : a ≠ t) (hid : schema.keyOf? a = some id) :
    (∀ (s : Store) (request : Request) (p : Option Predicate) (answer : List Resource),
        s.schema t = schema → s.read t request p = .ok answer → ∀ value key,
          (id, value) ∈ Predicate.requires p → value.keyText = some key → s.HasKey a key) ↔
      ∀ b, b ≠ t → schema.keyOf? b = some id → compare b a ≠ .lt := by
  have hfirst : parentType? schema t id = some a ↔
      ∀ b, b ≠ t → schema.keyOf? b = some id → compare b a ≠ .lt :=
    parentType?_eq_some_iff.trans (and_iff_right ⟨ha, hid⟩)
  rw [← hfirst]
  constructor
  · intro hstored
    -- A store with an instance of the type that is looked up, and of no other, answers the read.
    obtain ⟨b, hb⟩ := exists_parentType? ha hid
    obtain ⟨answer, hanswer⟩ := exists_read_keyStore "" hb
    have hschema : (keyStore schema t b id "").schema t = schema := by
      rw [Store.schema, table?_keyStore, if_pos rfl]
    obtain ⟨own, hown, -⟩ := hstored (keyStore schema t b id "") .all _ answer hschema hanswer
      (.string "") "" (List.mem_singleton_self _) rfl
    by_cases hab : a = b
    · rw [hab, hb]
    · rw [Store.schema, table?_keyStore, if_neg ha, if_neg hab] at hown
      cases hown
  · intro hparent s request p answer hschema hread value key hmem hkey
    obtain ⟨table, htable, -⟩ := read_eq_ok hread
    have hmissing := (namesStored_of_read hread table htable).1
    rw [schema_of_table? htable] at hschema
    rw [hschema] at hmissing
    exact missingParent?_eq_none_iff.1 hmissing id value key a hmem hkey hparent

end Store

/-! ## Hosts that stand in a rack or in a room -/

namespace Places

def host : ResourceType := ⟨"Host"⟩

def rack : ResourceType := ⟨"Rack"⟩

def room : ResourceType := ⟨"Room"⟩

/-- A host says in one property where it stands, be it a rack or a room. -/
def placeSchema : Schema := .ofList [(host, ⟨"name"⟩), (rack, ⟨"place"⟩), (room, ⟨"place"⟩)]

/-- A rack, a room and a host in the rack. -/
def placedHosts : Store :=
  let named (t : ResourceType) (name : String) : Resource :=
    ⟨t, .ofList [(⟨"name"⟩, .string name)]⟩
  let places := (((∅ : Store).register rack (.ofList [(rack, ⟨"name"⟩)])).register room
    (.ofList [(room, ⟨"name"⟩)])).register host placeSchema
  ((places.addRow (named rack "r1")).addRow (named room "upstairs")).addRow
    ⟨host, .ofList [(⟨"name"⟩, .string "h1"), (⟨"place"⟩, .string "r1")]⟩

/-- The hosts that stand in `r1`. -/
def placedInRack : Predicate := .equals ⟨"place"⟩ (.string "r1")

end Places

namespace Store

open Places

theorem exists_read_placedHosts :
    ∃ answer, placedHosts.read host .all (some placedInRack) = .ok answer := by
  have hok : (placedHosts.read host .all (some placedInRack)).toOption.isSome = true := by
    decide +kernel
  cases hread : placedHosts.read host .all (some placedInRack) with
  | error e =>
    rw [hread] at hok
    cases hok
  | ok answer => exact ⟨answer, rfl⟩

theorem placedHosts_rack_stored : ∃ answer,
    placedHosts.read host .all (some placedInRack) = .ok answer ∧
      (rack ≠ host ∧ placeSchema.keyOf? rack = some ⟨"place"⟩) ∧
        placedHosts.HasKey rack "r1" := by
  obtain ⟨answer, hread⟩ := exists_read_placedHosts
  have hrack : rack ≠ host ∧ placeSchema.keyOf? rack = some ⟨"place"⟩ := by decide +kernel
  have hschema : placedHosts.schema host = placeSchema := by decide +kernel
  have hparent : parentType? placeSchema host ⟨"place"⟩ = some rack := by decide +kernel
  refine ⟨answer, hread, hrack, ?_⟩
  exact (ancestors_stored_iff hrack.1 hrack.2).2 (first_of_parentType? hparent).2 placedHosts .all
    (some placedInRack) answer hschema hread (.string "r1") "r1" (List.mem_singleton_self _) rfl

/-- The room is not looked up, because the property stands for the rack first. -/
theorem placedHosts_room_not_stored : ∃ answer,
    placedHosts.read host .all (some placedInRack) = .ok answer ∧
      ¬ ∀ id value key a, (id, value) ∈ Predicate.requires (some placedInRack) →
        value.keyText = some key → a ≠ host → (placedHosts.schema host).keyOf? a = some id →
          placedHosts.HasKey a key := by
  obtain ⟨answer, hread⟩ := exists_read_placedHosts
  refine ⟨answer, hread, fun hall => ?_⟩
  have hroom : room ≠ host ∧ (placedHosts.schema host).keyOf? room = some ⟨"place"⟩ := by
    decide +kernel
  have hstored : placedHosts.HasKey room "r1" :=
    hall ⟨"place"⟩ (.string "r1") "r1" room (List.mem_singleton_self _) rfl hroom.1 hroom.2
  revert hstored
  decide +kernel

end Store
end ResourceQuery
