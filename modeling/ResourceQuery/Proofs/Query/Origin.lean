import Mathlib.Data.List.Forall2
import ResourceQuery.Proofs.Query.Sorting

/-!
# Where the rows of an answer come from

Two reads for one predicate that ask for different properties answer with different rows, but row
by row these stem from the same stored rows.  Every answer shows the keys and what its predicate
mentions, so nothing else that is done with the rows can tell the two answers apart: not leaving out
repetitions, as long as the keys tell the stored rows apart, nor filtering again, nor binding the
resources beneath a row.
-/

namespace ResourceQuery
namespace Store

variable {s : Store} {t : ResourceType} {p pred : Option Predicate} {r r' stored : Resource}
  {rows rows' : List Resource} {request request' : Request}

/-! ## Stored rows and what is shown of them -/

/-- Within each type any two stored rows differ in the value of some key property. -/
def KeysTellApart (s : Store) : Prop := ∀ table ∈ s.tables.values, table.KeysTellApart

instance (s : Store) : Decidable s.KeysTellApart :=
  inferInstanceAs (Decidable (∀ table ∈ s.tables.values, table.KeysTellApart))

theorem KeysTellApart.table (h : s.KeysTellApart) {table : Table}
    (htable : s.table? t = some table) : table.KeysTellApart :=
  h table (SortedMap.mem_values_iff.2 ⟨t, htable⟩)

/-- The row shows a stored row, in an answer to a read for the predicate: it has the keys of the
stored row and what the predicate mentions, and no other values than the stored ones. -/
structure Shows (s : Store) (p : Option Predicate) (stored r : Resource) : Prop where
  type : r.type = stored.type
  kept : ∀ id, id ∈ (s.schema stored.type).keys.values ∨ id ∈ Predicate.mentions p →
    r.value? id = stored.value? id
  stored : ∀ id value, r.value? id = some value → stored.value? id = some value

/-- The rows show one stored row of the type. -/
def SameOrigin (s : Store) (t : ResourceType) (p : Option Predicate) (r r' : Resource) : Prop :=
  ∃ stored ∈ s.rows t, s.Shows p stored r ∧ s.Shows p stored r'

theorem shows_restrictRow {table : Table} (htable : s.table? t = some table)
    (hstored : stored ∈ table.rows) : s.Shows p stored (table.restrictRow request p stored) where
  type := by
    unfold Table.restrictRow
    split
    · rfl
    · rfl
  kept id hid := by
    refine Table.value?_restrictRow (.inr (Resource.isSelected_of_mem (Table.mem_answerIds.2 ?_))) _
    rw [s.ofType t table htable stored hstored, schema_of_table? htable] at hid
    exact .inr hid
  stored id value hvalue := by
    unfold Table.restrictRow at hvalue
    split at hvalue
    · exact hvalue
    · rw [Resource.value?_project] at hvalue
      exact (Option.filter_eq_some_iff.1 hvalue).1

/-- Reads for one predicate answer with the same stored rows in the same order, whatever
properties they ask for. -/
theorem read_sameOrigin (hkeys : s.KeysTellApart) (hread : s.read t request p = .ok rows)
    (hread' : s.read t request' p = .ok rows') :
    List.Forall₂ (s.SameOrigin t p) (Resource.distinct rows) (Resource.distinct rows') := by
  obtain ⟨table, htable, rfl⟩ := read_eq_ok hread
  obtain ⟨table', htable', rfl⟩ := read_eq_ok hread'
  obtain rfl : table = table' := Option.some.inj (htable.symm.trans htable')
  have hmatching : (table.matching p).Sublist table.rows := List.filter_sublist
  rw [Table.distinct_restrict (hkeys.table htable) hmatching,
    Table.distinct_restrict (hkeys.table htable) hmatching, Table.restrict_eq_map,
    Table.restrict_eq_map, List.forall₂_map_left_iff, List.forall₂_map_right_iff,
    List.forall₂_same]
  intro stored hstored
  have hstored : stored ∈ table.rows := hmatching.subset hstored
  exact ⟨stored, (rows_of_table? htable).symm ▸ hstored, shows_restrictRow htable hstored,
    shows_restrictRow htable hstored⟩

namespace SameOrigin

theorem type (h : s.SameOrigin t p r r') : r.type = t ∧ r'.type = t := by
  obtain ⟨stored, hstored, hshows, hshows'⟩ := h
  have htype := type_of_mem_rows hstored
  exact ⟨hshows.type.trans htype, hshows'.type.trans htype⟩

theorem value?_eq (h : s.SameOrigin t p r r') {id : PropertyId}
    (hid : id ∈ (s.schema t).keys.values ∨ id ∈ Predicate.mentions p) :
    r.value? id = r'.value? id := by
  obtain ⟨stored, hstored, hshows, hshows'⟩ := h
  rw [← type_of_mem_rows hstored] at hid
  exact (hshows.kept id hid).trans (hshows'.kept id hid).symm

/-- For the keys alone the predicate of the reads can be forgotten. -/
theorem none (h : s.SameOrigin t p r r') : s.SameOrigin t none r r' := by
  obtain ⟨stored, hstored, hshows, hshows'⟩ := h
  have hkeys {r : Resource} (hshows : s.Shows p stored r) : s.Shows .none stored r :=
    ⟨hshows.type, fun id hid => hshows.kept id (.inl (hid.resolve_right List.not_mem_nil)),
      hshows.stored⟩
  exact ⟨stored, hstored, hkeys hshows, hkeys hshows'⟩

theorem admits_eq (h : s.SameOrigin t p r r')
    (hpred : ∀ id ∈ Predicate.mentions pred,
      id ∈ (s.schema t).keys.values ∨ id ∈ Predicate.mentions p) :
    Predicate.admits pred r = Predicate.admits pred r' :=
  Predicate.admits_congr fun id hid => h.value?_eq (hpred id hid)

end SameOrigin

/-- Filtering keeps the same stored rows of two answers, if both show what the filter looks at. -/
theorem narrow_sameOrigin (h : List.Forall₂ (s.SameOrigin t p) rows rows')
    (hpred : ∀ id ∈ Predicate.mentions pred,
      id ∈ (s.schema t).keys.values ∨ id ∈ Predicate.mentions p) :
    List.Forall₂ (s.SameOrigin t p) (narrow rows pred) (narrow rows' pred) := by
  refine List.rel_filter (fun r r' hrow => ?_) h
  show Predicate.admits pred r = true ↔ Predicate.admits pred r' = true
  rw [hrow.admits_eq hpred]

end Store

/-! ## Pages -/

/-- A page that is not sorted cuts out the same places of two answers. -/
theorem PageRequest.selectSorted_sameOrigin {R : Resource → Resource → Prop} {page : PageRequest}
    {rows rows' : List Resource} (hsort : page.sort = none) (h : List.Forall₂ R rows rows') :
    List.Forall₂ R (page.selectSorted rows).rows (page.selectSorted rows').rows ∧
      (page.selectSorted rows).offset = (page.selectSorted rows').offset ∧
      (page.selectSorted rows).total = (page.selectSorted rows').total := by
  simp only [selectSorted, hsort, select, h.length_eq, and_self, and_true]
  exact List.forall₂_take _ (List.forall₂_drop _ h)

/-! ## The bindings beneath a row -/

namespace Cluster

variable {c : Cluster} {t : ResourceType} {p : Option Predicate} {r r' : Resource}

theorem rowKey?_sameOrigin (h : c.store.SameOrigin t p r r') : c.rowKey? r = c.rowKey? r' := by
  obtain ⟨htype, htype'⟩ := h.type
  funext t'
  rw [rowKey?, rowKey?, htype, htype']
  cases hid : (c.store.schema t).keyOf? t' with
  | none => rfl
  | some id =>
    have hvalue := h.value?_eq (.inl (SortedMap.mem_values_iff.2 ⟨t', hid⟩))
    show r.key? id = r'.key? id
    rw [Resource.key?, Resource.key?, hvalue]

theorem rowKeyMap_sameOrigin (h : c.store.SameOrigin t p r r') :
    c.rowKeyMap r = c.rowKeyMap r' :=
  c.rowKeyMap_congr (h.type.1.trans h.type.2.symm) (rowKey?_sameOrigin h)

/-- Beneath the rows of two answers the same key maps come up, in the same order. -/
theorem rowKeyMaps_sameOrigin {n n' : QueryNode} {rows rows' : List Resource}
    (hkeyMaps : n'.keyMaps = n.keyMaps)
    (h : List.Forall₂ (c.store.SameOrigin t p) rows rows') :
    n'.rowKeyMaps c rows' = n.rowKeyMaps c rows := by
  have hbound : List.Forall₂ Eq
      (rows.flatMap fun row => (n.keyMaps.toList.filter fun keyMap =>
        !c.conflicts row keyMap).map (c.rowKeyMap row))
      (rows'.flatMap fun row => (n.keyMaps.toList.filter fun keyMap =>
        !c.conflicts row keyMap).map (c.rowKeyMap row)) := by
    refine List.rel_flatMap h fun row row' hrow => ?_
    rw [rowKeyMap_sameOrigin hrow, c.conflicts_congr (rowKey?_sameOrigin hrow)]
    exact List.forall₂_refl _
  rw [List.forall₂_eq_eq_eq] at hbound
  rw [QueryNode.rowKeyMaps, QueryNode.rowKeyMaps, hkeyMaps, hbound]

end Cluster

/-! ## What a batch mentions -/

namespace QueryNode

variable {n : QueryNode} {c : Cluster} {keyMaps : List KeyMap}

/-- The answer to a batch shows what the node looks at under any bindings. -/
theorem mem_mentions_of_predicateFor (hne : keyMaps ≠ []) (m : KeyMap) {id : PropertyId}
    (h : id ∈ Predicate.mentions (n.predicateFor c m)) :
    id ∈ (n.schema c).keys.values ∨ id ∈ Predicate.mentions (n.batchPredicate c keyMaps) := by
  refine ((keys_or_mentions_iff m id).1 (.inr h)).imp_right fun huser => ?_
  obtain ⟨m', hm'⟩ := List.exists_mem_of_ne_nil keyMaps hne
  -- A filter that mentions something is part of every alternative.
  refine n.mem_mentions_batchPredicate c hm' (fun hnone => ?_) huser
  rw [((n.predicateFor_eq_none_iff c).1 hnone).1] at huser
  cases huser

end QueryNode
end ResourceQuery
