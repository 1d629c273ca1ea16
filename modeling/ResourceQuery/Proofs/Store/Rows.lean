import ResourceQuery.Store.Read
import ResourceQuery.Proofs.Predicate.Evaluation

/-!
# Rows of an answer

An answer to a read holds stored rows, restricted to some properties, each once.  Restricting
and leaving out repetitions both commute with any further filtering by a predicate whose
properties are among those of the answer.  So it does not matter whether rows are filtered in
the store or after they were read.
-/

namespace ResourceQuery

theorem PropertyId.isWithin_text (id : PropertyId) : id.isWithin id.text = true := by
  simp [PropertyId.isWithin]

namespace Resource

/-! ## Projection -/

theorem value?_project (r : Resource) (ids : SortedSet PropertyId) (id : PropertyId) :
    (r.project ids).value? id = (r.value? id).filter fun _ => isSelected ids id :=
  SortedMap.get?_filter r.properties _ id

theorem isSelected_of_mem {ids : SortedSet PropertyId} {id : PropertyId} (h : id ∈ ids) :
    isSelected ids id = true :=
  List.any_eq_true.2 ⟨id, h, id.isWithin_text⟩

theorem value?_project_of_isSelected {ids : SortedSet PropertyId} {id : PropertyId}
    (h : isSelected ids id = true) (r : Resource) : (r.project ids).value? id = r.value? id := by
  rw [value?_project, h]
  cases r.value? id <;> rfl

theorem value?_project_of_mem {ids : SortedSet PropertyId} {id : PropertyId} (h : id ∈ ids)
    (r : Resource) : (r.project ids).value? id = r.value? id :=
  value?_project_of_isSelected (isSelected_of_mem h) r

/-! ## Rows that a hash table takes for one -/

/-- Rows of one type with alike values at every property. -/
def Alike (r s : Resource) : Prop :=
  r.type = s.type ∧ ∀ id, Option.Rel Json.Alike (r.value? id) (s.value? id)

theorem get?_alike : ∀ {xs ys : List (PropertyId × Json)}, xs.map (·.1) = ys.map (·.1) →
    Json.agreesItems (xs.map (·.2)) (ys.map (·.2)) = true →
    xs.map (·.2.text) = ys.map (·.2.text) →
    ∀ id, Option.Rel Json.Alike (Entries.get? id xs) (Entries.get? id ys)
  | [], ys, hkeys, _, _, id => by
    obtain rfl : ys = [] := by simpa using hkeys
    exact .none
  | x :: xs, [], hkeys, _, _, _ => by simp at hkeys
  | (k, v) :: xs, (l, w) :: ys, hkeys, hvalues, htexts, id => by
    obtain ⟨rfl, hks⟩ : k = l ∧ xs.map (·.1) = ys.map (·.1) := by simpa using hkeys
    obtain ⟨hvw, hvs⟩ : v.agrees w = true ∧
        Json.agreesItems (xs.map (·.2)) (ys.map (·.2)) = true := by
      simpa [Json.agreesItems] using hvalues
    obtain ⟨ht, hts⟩ : v.text = w.text ∧ xs.map (·.2.text) = ys.map (·.2.text) := by
      simpa using htexts
    simp only [Entries.get?]
    split
    · exact .some ⟨hvw, ht⟩
    · exact get?_alike hks hvs hts id

theorem texts_eq_of_fingerprint : ∀ {xs ys : List (PropertyId × Json)},
    (xs.flatMap fun (id, value) => [Mark.text id.text, .text value.text]) =
      (ys.flatMap fun (id, value) => [Mark.text id.text, .text value.text]) →
    xs.map (·.2.text) = ys.map (·.2.text)
  | [], [], _ => rfl
  | [], _ :: _, h => by simp at h
  | _ :: _, [], h => by simp at h
  | (k, v) :: xs, (l, w) :: ys, h => by
    simp only [List.flatMap_cons, List.cons_append, List.nil_append, List.cons.injEq,
      Mark.text.injEq] at h
    simp [h.2.1, texts_eq_of_fingerprint h.2.2]

theorem alike_of_same {r s : Resource} (h : Distinct.same fingerprint agrees r s = true) :
    r.Alike s := by
  obtain ⟨⟨ht, hkeys, hvalues⟩, hf⟩ : (r.type = s.type ∧ r.properties.keys = s.properties.keys ∧
      Json.agreesItems r.properties.values s.properties.values = true) ∧
      r.fingerprint = s.fingerprint := by
    simpa [Distinct.same, agrees] using h
  have htexts := texts_eq_of_fingerprint (List.cons.inj hf).2
  exact ⟨ht, get?_alike hkeys hvalues htexts⟩

theorem Alike.refl (r : Resource) : r.Alike r := by
  refine ⟨rfl, fun id => ?_⟩
  cases r.value? id with
  | none => exact .none
  | some a => exact .some (.refl a)

theorem Alike.admits_eq {r s : Resource} (h : r.Alike s) (p : Option Predicate) :
    Predicate.admits p r = Predicate.admits p s := by
  cases p with
  | none => rfl
  | some p =>
    refine Predicate.holds_congr fun id _ e => ?_
    rcases hr : r.value? id with _ | a <;> rcases hs : s.value? id with _ | b
    · simp [Predicate.holds, hr, hs]
    · simpa [hr, hs] using h.2 id
    · simpa [hr, hs] using h.2 id
    · have hab : a.Alike b := by simpa [hr, hs] using h.2 id
      simp [Predicate.holds, hr, hs, Predicate.valueMatches_congr hab]

theorem mem_of_mem_distinct {rows : List Resource} {r : Resource} (h : r ∈ distinct rows) :
    r ∈ rows :=
  (Distinct.keepNew_sublist _ _ rows).subset h

/-- Of every row one that is alike is kept. -/
theorem exists_alike_of_mem {rows : List Resource} {r : Resource} (h : r ∈ rows) :
    ∃ s ∈ distinct rows, s.Alike r := by
  have hrefl : ∀ x : Resource, Distinct.same fingerprint agrees x x = true := by
    intro x
    simp [Distinct.same, agrees, Json.agreesItems_refl]
  obtain ⟨s, hs, hsame⟩ : ∃ s ∈ [] ++ distinct rows, Distinct.same fingerprint agrees s r = true :=
    Distinct.exists_same_of_mem hrefl h
  exact ⟨s, hs, alike_of_same hsame⟩

/-- Rows can be filtered before or after repetitions are left out. -/
theorem narrow_distinct (rows : List Resource) (p : Option Predicate) :
    narrow (distinct rows) p = distinct (narrow rows p) :=
  Distinct.firsts_filter (fun _ _ h => (alike_of_same h).admits_eq p) rows

end Resource

/-! ## Answers -/

theorem mem_narrow {rows : List Resource} {p : Option Predicate} {r : Resource} :
    r ∈ narrow rows p ↔ r ∈ rows ∧ Predicate.admits p r = true :=
  List.mem_filter

/-- Of two filters the weaker one can be left out. -/
theorem narrow_narrow {rows : List Resource} {p q : Option Predicate}
    (h : ∀ r ∈ rows, Predicate.admits q r = true → Predicate.admits p r = true) :
    narrow (narrow rows p) q = narrow rows q := by
  simp only [narrow, List.filter_filter]
  refine List.filter_congr fun r hr => ?_
  cases hq : Predicate.admits q r with
  | false => rfl
  | true => simp [h r hr hq]

/-- Rows can be filtered before or after a change that keeps what the filter mentions. -/
theorem narrow_map {f : Resource → Resource} {q : Option Predicate}
    (h : ∀ id ∈ Predicate.mentions q, ∀ r, (f r).value? id = r.value? id) (rows : List Resource) :
    narrow (rows.map f) q = (narrow rows q).map f := by
  rw [narrow, List.filter_map]
  refine congrArg (List.map f) (List.filter_congr fun r _ => ?_)
  exact Predicate.admits_congr fun id hid => h id hid r

namespace Table

variable {table : Table} {request : Request}

theorem mem_answerIds {p : Option Predicate} {id : PropertyId} :
    id ∈ table.answerIds request p ↔
      id ∈ request.propertyIds ∨ id ∈ table.schema.keys.values ∨ id ∈ Predicate.mentions p := by
  simp [answerIds, Predicate.mentions, or_assoc]

theorem restrict_congr {p q : Option Predicate}
    (h : ∀ id, id ∈ table.answerIds request p ↔ id ∈ table.answerIds request q)
    (rows : List Resource) : table.restrict request p rows = table.restrict request q rows := by
  have hids : table.answerIds request p = table.answerIds request q := SortedSet.ext_mem h
  simp only [restrict, hids]

/-- What an answer shows of a row. -/
def restrictRow (table : Table) (request : Request) (p : Option Predicate) (r : Resource) :
    Resource :=
  if request.isAll then r else r.project (table.answerIds request p)

theorem restrict_eq_map (rows : List Resource) :
    table.restrict request p rows = rows.map (table.restrictRow request p) := by
  unfold restrict restrictRow
  split
  · exact (List.map_id' rows).symm
  · rfl

/-- A row of an answer is a stored row, and it has the stored values at the properties of the
answer. -/
theorem exists_of_mem_restrict {p : Option Predicate} {rows : List Resource} {r : Resource}
    (h : r ∈ table.restrict request p rows) :
    ∃ s ∈ rows, r.type = s.type ∧
      ∀ id ∈ table.answerIds request p, r.value? id = s.value? id := by
  simp only [restrict] at h
  split at h
  · exact ⟨r, h, rfl, fun _ _ => rfl⟩
  · obtain ⟨s, hs, rfl⟩ := List.mem_map.1 h
    exact ⟨s, hs, rfl, fun id hid => Resource.value?_project_of_mem hid s⟩

/-- Rows can be filtered before or after they are restricted, as long as the answer has the
properties that the filter mentions. -/
theorem narrow_restrict {p q : Option Predicate}
    (h : ∀ id ∈ Predicate.mentions q, id ∈ table.answerIds request p) (rows : List Resource) :
    narrow (table.restrict request p rows) q = table.restrict request p (narrow rows q) := by
  simp only [restrict]
  split
  · rfl
  · exact narrow_map (fun id hid r => Resource.value?_project_of_mem (h id hid) r) rows

/-- An answer can be narrowed to what a stronger predicate would have given, if both answers have
the same properties. -/
theorem narrow_answer {p q : Option Predicate}
    (hids : ∀ id, id ∈ table.answerIds request p ↔ id ∈ table.answerIds request q)
    (hweaker : ∀ r, Predicate.admits q r = true → Predicate.admits p r = true) :
    narrow (Resource.distinct (table.restrict request p (table.matching p))) q =
      Resource.distinct (table.restrict request q (table.matching q)) := by
  have hmentions : ∀ id ∈ Predicate.mentions q, id ∈ table.answerIds request p :=
    fun id hid => (hids id).2 (mem_answerIds.2 (.inr (.inr hid)))
  have hmatching : narrow (table.matching p) q = table.matching q :=
    narrow_narrow fun r _ hr => hweaker r hr
  rw [Resource.narrow_distinct, narrow_restrict hmentions, hmatching, restrict_congr hids]

end Table

namespace Store

/-- The stored rows of a type. -/
def rows (s : Store) (t : ResourceType) : List Resource :=
  match s.table? t with
  | some table => table.rows
  | none => []

theorem type_of_mem_rows {s : Store} {t : ResourceType} {r : Resource} (h : r ∈ s.rows t) :
    r.type = t := by
  unfold rows at h
  split at h
  · rename_i table htable
    exact s.ofType t table htable r h
  · cases h

theorem rows_of_table? {s : Store} {t : ResourceType} {table : Table}
    (h : s.table? t = some table) : s.rows t = table.rows := by
  simp [rows, h]

theorem schema_of_table? {s : Store} {t : ResourceType} {table : Table}
    (h : s.table? t = some table) : s.schema t = table.schema := by
  simp [schema, h]

/-- What a read gives when it is not refused. -/
theorem read_eq_ok {s : Store} {t : ResourceType} {request : Request} {p : Option Predicate}
    {rows : List Resource} (h : s.read t request p = .ok rows) :
    ∃ table, s.table? t = some table ∧ rows = table.restrict request p (table.matching p) := by
  simp only [read] at h
  split at h
  · cases h
  · rename_i table htable
    split at h
    · cases h
    · exact ⟨table, htable, (Except.ok.inj h).symm⟩

/-- A row that was read is a stored row of the type, with the stored keys. -/
theorem exists_stored_of_read {s : Store} {t : ResourceType} {request : Request}
    {p : Option Predicate} {rows : List Resource} (h : s.read t request p = .ok rows)
    {r : Resource} (hr : r ∈ rows) : r.type = t ∧ ∃ stored ∈ s.rows t,
      ∀ id ∈ (s.schema t).keys.values, r.value? id = stored.value? id := by
  obtain ⟨table, htable, rfl⟩ := read_eq_ok h
  obtain ⟨stored, hmatching, htype, hvalues⟩ := Table.exists_of_mem_restrict hr
  have hstored : stored ∈ s.rows t := by
    rw [rows_of_table? htable]
    exact (List.mem_filter.1 hmatching).1
  refine ⟨htype.trans (type_of_mem_rows hstored), stored, hstored, fun id hid => ?_⟩
  rw [schema_of_table? htable] at hid
  exact hvalues id (Table.mem_answerIds.2 (.inr (.inl hid)))

end Store
end ResourceQuery
