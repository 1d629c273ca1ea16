import ResourceQuery.Proofs.Store.Rows

/-!
# Refused reads

A read of a known type is refused for the properties that it names, or for the instances that its
predicate requires: for a parent that is not stored, or for the own key of the type when no row
matches.
-/

namespace ResourceQuery

/-- The comparisons that an optional predicate requires. -/
def Predicate.requires (p : Option Predicate) : List (PropertyId × Json) :=
  (p.map required).getD []

namespace Table

variable {table : Table} {request request' : Request} {p q : Option Predicate}

theorem supports_of_mem_keys {id : PropertyId} (hid : id ∈ table.schema.keys.values)
    (supported : SortedSet PropertyId) : table.supports supported id = true := by
  have hkey : table.schema.isKey id = true := by simpa [Schema.isKey] using hid
  rw [supports, hkey, Bool.true_or]

theorem unsupported_eq_nil_iff : table.unsupported request p = [] ↔
    ∀ supported, table.supported = some supported → ∀ id,
      id ∈ request.propertyIds ∨ id ∈ Predicate.mentions p →
        table.supports supported id = true := by
  unfold unsupported
  cases table.supported with
  | none => simp
  | some supported =>
    simp only [List.eq_nil_iff_forall_not_mem, Option.some.injEq, forall_eq']
    refine forall_congr' fun id => ?_
    have hmem : id ∈ (SortedSet.ofList ((request.propertyIds.toList ++
        (p.map Predicate.mentioned).getD []).filter fun id => !table.supports supported id)).toList ↔
          (id ∈ request.propertyIds ∨ id ∈ Predicate.mentions p) ∧
            table.supports supported id = false := by
      refine SortedSet.mem_ofList.trans ?_
      rw [List.mem_filter, List.mem_append, Bool.not_eq_true']
      rfl
    rw [hmem, not_and, Bool.not_eq_false]

/-- The keys of a type are always exposed, so a predicate may mention more of them. -/
theorem unsupported_of_mentions (h : table.unsupported request p = [])
    (hmentions : ∀ id ∈ Predicate.mentions q,
      id ∈ table.schema.keys.values ∨ id ∈ Predicate.mentions p) :
    table.unsupported request q = [] := by
  rw [unsupported_eq_nil_iff] at h ⊢
  rintro supported hsupported id (hid | hid)
  · exact h supported hsupported id (.inl hid)
  rcases hmentions id hid with hkey | hid
  · exact supports_of_mem_keys hkey supported
  · exact h supported hsupported id (.inr hid)

/-- Nor does it make a difference which keys a request asks for. -/
theorem unsupported_congr (h : ∀ id, id ∉ table.schema.keys.values →
      (id ∈ request.propertyIds ↔ id ∈ request'.propertyIds)) :
    table.unsupported request p = table.unsupported request' p := by
  unfold unsupported
  cases table.supported with
  | none => rfl
  | some supported =>
    refine congrArg SortedSet.toList (SortedSet.ext_mem fun id => ?_)
    simp only [SortedSet.mem_ofList, List.mem_filter, List.mem_append, Bool.not_eq_true']
    refine and_congr_left fun hunsupported => or_congr_left (h id fun hkey => ?_)
    cases hunsupported.symm.trans (supports_of_mem_keys hkey supported)

end Table

namespace Store

/-- The instances that a predicate requires are stored: every parent, and a row that matches where
the own key of the type is required. -/
def NamesStored (s : Store) (t : ResourceType) (p : Option Predicate) : Prop :=
  ∀ table ∈ s.table? t, s.missingParent? table.schema t (Predicate.requires p) = none ∧
    (table.requiredKey? t p = none ∨ table.matching p ≠ [])

variable {s : Store} {t : ResourceType} {table : Table} {request : Request} {p : Option Predicate}

instance : Decidable (s.NamesStored t p) :=
  inferInstanceAs (Decidable (∀ table ∈ s.table? t, _ ∧ _))

theorem namesStored_of_requires_eq_nil (h : Predicate.requires p = []) : s.NamesStored t p := by
  intro table _
  refine ⟨by rw [h]; rfl, .inl ?_⟩
  unfold Table.requiredKey?
  split
  · rename_i key p' _
    have hrequired : p'.required = [] := h
    rw [hrequired]
    rfl
  · rfl

theorem refusal?_eq_none_iff : s.refusal? table t request p = none ↔
    table.unsupported request p = [] ∧
      s.missingParent? table.schema t (Predicate.requires p) = none ∧
      (table.requiredKey? t p = none ∨ table.matching p ≠ []) := by
  unfold refusal? Predicate.requires
  cases hunsupported : table.unsupported request p with
  | cons id ids => simp
  | nil =>
    cases hparent : s.missingParent? table.schema t ((p.map Predicate.required).getD []) with
    | some missing => simp
    | none =>
      cases hmatching : table.matching p with
      | cons r rs => simp
      | nil => cases hkey : table.requiredKey? t p <;> simp

/-- A read of a known type that names exposed properties alone is answered just when the instances
that it requires are stored. -/
theorem read_ok_iff (htable : s.table? t = some table)
    (hsupported : table.unsupported request p = []) :
    (∃ rows, s.read t request p = .ok rows) ↔ s.NamesStored t p := by
  have hrefusal : s.refusal? table t request p = none ↔ s.NamesStored t p := by
    rw [refusal?_eq_none_iff, NamesStored, htable]
    simp [hsupported, Option.mem_def]
  rw [← hrefusal]
  simp only [read, htable]
  cases s.refusal? table t request p with
  | none => simp
  | some e => simp

/-- An answer has all keys of its type, and they are always exposed.  So which of them are asked for
makes no difference, as long as something is asked for. -/
theorem read_congr {request' : Request} (hkeys : ∀ id, id ∉ (s.schema t).keys.values →
      (id ∈ request.propertyIds ↔ id ∈ request'.propertyIds))
    (hall : request.isAll = request'.isAll) : s.read t request p = s.read t request' p := by
  unfold read
  cases htable : s.table? t with
  | none => rfl
  | some table =>
    rw [schema_of_table? htable] at hkeys
    have hids : table.answerIds request p = table.answerIds request' p := by
      ext id
      rw [Table.mem_answerIds, Table.mem_answerIds]
      by_cases hkey : id ∈ table.schema.keys.values
      · exact iff_of_true (.inr (.inl hkey)) (.inr (.inl hkey))
      · exact or_congr_left (hkeys id hkey)
    simp only [refusal?, Table.restrict, Table.unsupported_congr hkeys, hids, hall]

theorem unsupported_of_read {rows : List Resource} (htable : s.table? t = some table)
    (h : s.read t request p = .ok rows) : table.unsupported request p = [] := by
  unfold read at h
  rw [htable] at h
  cases hrefusal : s.refusal? table t request p with
  | none => exact (refusal?_eq_none_iff.1 hrefusal).1
  | some e =>
    simp only [hrefusal] at h
    cases h

end Store
end ResourceQuery
