import ResourceQuery.Proofs.Store.Rows

/-!
# What an answer shows

A store is built by a few changes, and its rows stand in the order in which they were added.  A read
that is not refused answers with all rows of the type that pass the predicate, in this order, and
shows of each of them what was asked for, the keys of the type and what the predicate mentions.  A
filter that looks at nothing else cannot tell such rows from the stored ones, so it can be applied
to the answer as well as in the store.
-/

namespace ResourceQuery

namespace Store

/-! ## Stored rows -/

/-- A change of a store. -/
inductive Change where
  | register (t : ResourceType) (schema : Schema)
  | setSupported (t : ResourceType) (ids : SortedSet PropertyId)
  | addRow (r : Resource)

/-- The store after a change. -/
def change (s : Store) : Change → Store
  | .register t schema => s.register t schema
  | .setSupported t ids => s.setSupported t ids
  | .addRow r => s.addRow r

/-- The row that a change adds to a type, if it adds one. -/
def Change.row? (t : ResourceType) : Change → Option Resource
  | .register _ _ => none
  | .setSupported _ _ => none
  | .addRow r => if r.type = t then some r else none

variable {s : Store} {t : ResourceType} {request : Request} {p q : Option Predicate}
  {answer : List Resource}

theorem rows_eq_getD (s : Store) (t : ResourceType) :
    s.rows t = ((s.table? t).getD .empty).rows := by
  unfold rows
  cases s.table? t with
  | none => rfl
  | some table => rfl

theorem rows_modify {t' : ResourceType} {f : Table → Table}
    {keeps : ∀ table : Table, table.OfType t' → (f table).OfType t'} :
    (s.modify t' f keeps).rows t =
      if t = t' then (f ((s.table? t').getD .empty)).rows else s.rows t := by
  have htable : (s.modify t' f keeps).table? t =
      if t = t' then some (f ((s.table? t').getD .empty)) else s.table? t :=
    SortedMap.get?_insert _ _ _ _
  rw [rows_eq_getD, htable]
  split
  · rfl
  · exact (rows_eq_getD s t).symm

/-- A change that keeps the rows of its table keeps all rows. -/
theorem rows_modify_of_rows_eq {t' : ResourceType} {f : Table → Table}
    {keeps : ∀ table : Table, table.OfType t' → (f table).OfType t'}
    (hf : ∀ table, (f table).rows = table.rows) : (s.modify t' f keeps).rows t = s.rows t := by
  rw [rows_modify]
  split
  · rename_i ht
    rw [hf, ht, rows_eq_getD]
  · rfl

/-- A change adds its row behind the others of the type. -/
theorem rows_change (a : Change) : (s.change a).rows t = s.rows t ++ (a.row? t).toList := by
  cases a with
  | register t' schema =>
    have hrows : (s.register t' schema).rows t = s.rows t := rows_modify_of_rows_eq fun _ => rfl
    exact hrows.trans (List.append_nil _).symm
  | setSupported t' ids =>
    have hrows : (s.setSupported t' ids).rows t = s.rows t := rows_modify_of_rows_eq fun _ => rfl
    exact hrows.trans (List.append_nil _).symm
  | addRow r =>
    refine rows_modify.trans ?_
    by_cases ht : r.type = t
    · rw [if_pos ht.symm, Change.row?, if_pos ht, ht, rows_eq_getD]
      rfl
    · rw [if_neg (Ne.symm ht), Change.row?, if_neg ht]
      exact (List.append_nil _).symm

/-- The rows of a type stand in the order in which they were added. -/
theorem rows_changes (changes : List Change) :
    (changes.foldl change s).rows t = s.rows t ++ changes.filterMap (Change.row? t) := by
  induction changes generalizing s with
  | nil => exact (List.append_nil _).symm
  | cons a changes ih =>
    rw [List.foldl_cons, ih, rows_change, List.append_assoc, List.filterMap_cons]
    cases a.row? t with
    | none => rfl
    | some r => rfl

/-! ## Shown rows -/

/-- Whether the answer to a read shows a property of its rows.  It shows all if all are asked for,
and else what lies within a property that is asked for, a key of the type or a property that the
predicate mentions. -/
def shows (s : Store) (t : ResourceType) (request : Request) (p : Option Predicate)
    (id : PropertyId) : Bool :=
  request.isAll || (request.propertyIds.toList ++ (s.schema t).keys.values ++
    Predicate.mentions p).any fun selected => id.isWithin selected.text

/-- What the answer to a read shows of a row. -/
def shownRow (s : Store) (t : ResourceType) (request : Request) (p : Option Predicate)
    (r : Resource) : Resource :=
  { r with properties := r.properties.filter fun id _ => s.shows t request p id }

theorem shows_of_mem_mentions {id : PropertyId} (h : id ∈ Predicate.mentions p) :
    s.shows t request p id = true := by
  unfold shows
  rw [List.any_eq_true.2 ⟨id, List.mem_append_right _ h, id.isWithin_text⟩, Bool.or_true]

theorem value?_shownRow {id : PropertyId} (h : s.shows t request p id = true) (r : Resource) :
    (s.shownRow t request p r).value? id = r.value? id := by
  unfold Resource.value? shownRow
  rw [SortedMap.get?_filter, h]
  cases r.properties.get? id <;> rfl

/-- Rows can be filtered before or after they are shown, by a predicate that mentions nothing but
what is shown. -/
theorem narrow_shownRow (h : ∀ id ∈ Predicate.mentions q, s.shows t request p id = true)
    (rows : List Resource) : narrow (rows.map (s.shownRow t request p)) q =
      (narrow rows q).map (s.shownRow t request p) :=
  narrow_map (fun id hid r => value?_shownRow (h id hid) r) rows

/-- A read restricts the rows to what its answer shows. -/
theorem restrictRow_eq_shownRow {table : Table} (htable : s.table? t = some table) (r : Resource) :
    table.restrictRow request p r = s.shownRow t request p r := by
  unfold Table.restrictRow
  split
  · rename_i hall
    have hshown : r.properties.filter (fun id _ => s.shows t request p id) = r.properties := by
      ext id : 1
      rw [SortedMap.get?_filter, shows, hall, Bool.true_or]
      cases r.properties.get? id <;> rfl
    rw [shownRow, hshown]
  · -- The ids of an answer are kept as a set, and here as a list with the same members.
    rename_i hall
    have hselected (id : PropertyId) :
        Resource.isSelected (table.answerIds request p) id = s.shows t request p id := by
      rw [shows, Bool.eq_false_iff.2 hall, Bool.false_or, Resource.isSelected, Bool.eq_iff_iff,
        List.any_eq_true, List.any_eq_true, schema_of_table? htable]
      refine exists_congr fun selected => and_congr_left fun _ => ?_
      rw [List.mem_append, List.mem_append, or_assoc]
      exact Table.mem_answerIds
    unfold Resource.project shownRow
    simp only [hselected]

/-- A read that is not refused answers with the stored rows that pass the predicate, as it shows
them. -/
theorem read_eq_map_shownRow (h : s.read t request p = .ok answer) :
    answer = (narrow (s.rows t) p).map (s.shownRow t request p) := by
  obtain ⟨table, htable, rfl⟩ := read_eq_ok h
  rw [Table.restrict_eq_map, rows_of_table? htable]
  exact List.map_congr_left fun r _ => restrictRow_eq_shownRow htable r

/-- The answer to a read holds the rows of the type that pass the predicate, in the order in which
they were added, and shows of each what was asked for, the keys and what the predicate mentions.
Filtering it by what it shows is the same as filtering the stored rows by both predicates, and
filtering it by the predicate of the read changes nothing. -/
theorem read_filter_exact (changes : List Change)
    (h : (changes.foldl change ∅).read t request p = .ok answer) :
    let s := changes.foldl change ∅
    let added := changes.filterMap (Change.row? t)
    answer = (added.filter (Predicate.admits p)).map (s.shownRow t request p) ∧
      (∀ q, (∀ id ∈ Predicate.mentions q, s.shows t request p id = true) → narrow answer q =
        (added.filter fun r => Predicate.admits p r && Predicate.admits q r).map
          (s.shownRow t request p)) ∧
      narrow answer p = answer := by
  intro s added
  have hrows : s.rows t = added := (rows_changes changes).trans (List.nil_append added)
  have hanswer : answer = (narrow added p).map (s.shownRow t request p) :=
    hrows ▸ read_eq_map_shownRow h
  have hfilter (q : Option Predicate)
      (hq : ∀ id ∈ Predicate.mentions q, s.shows t request p id = true) : narrow answer q =
        (added.filter fun r => Predicate.admits p r && Predicate.admits q r).map
          (s.shownRow t request p) := by
    rw [hanswer, narrow_shownRow hq, narrow, narrow, List.filter_filter]
    simp only [Bool.and_comm]
  refine ⟨hanswer, hfilter, ?_⟩
  rw [hfilter p fun _ hid => shows_of_mem_mentions hid, hanswer]
  simp only [Bool.and_self]
  rfl

/-- Hosts in two racks, with their loads. -/
def hostChanges : List Change :=
  let host (name rack load : String) : Change := .addRow ⟨⟨"Host"⟩,
    .ofList [(⟨"metrics/load"⟩, .string load), (⟨"name"⟩, .string name), (⟨"os"⟩, .string "linux"),
      (⟨"rack"⟩, .string rack)]⟩
  [host "h1" "r1" "low", .register ⟨"Host"⟩ (.ofList [(⟨"Host"⟩, ⟨"name"⟩)]), host "h2" "r2" "high",
    host "h3" "r1" "high"]

/-- The metrics of the hosts in a rack, and then of those with a high load. -/
theorem read_filter_exact_hosts :
    let s := hostChanges.foldl change ∅
    let added := hostChanges.filterMap (Change.row? ⟨"Host"⟩)
    let request : Request := ⟨.ofList [⟨"metrics"⟩], ∅⟩
    let inRack : Option Predicate := some (.equals ⟨"rack"⟩ (.string "r1"))
    let busy : Option Predicate := some (.equals ⟨"metrics/load"⟩ (.string "high"))
    ∃ answer, s.read ⟨"Host"⟩ request inRack = .ok answer ∧
      (answer.length = 2 ∧ (narrow answer busy).map (·.properties.keys) =
        [[⟨"metrics/load"⟩, ⟨"name"⟩, ⟨"rack"⟩]]) ∧
      (∀ id ∈ Predicate.mentions busy, s.shows ⟨"Host"⟩ request inRack id = true) ∧
      narrow answer busy = (added.filter fun r =>
        Predicate.admits inRack r && Predicate.admits busy r).map
          (s.shownRow ⟨"Host"⟩ request inRack) ∧
      narrow answer inRack = answer := by
  intro s added request inRack busy
  have hshown : ∀ id ∈ Predicate.mentions busy, s.shows ⟨"Host"⟩ request inRack id = true := by
    decide +kernel
  have hread : (s.read ⟨"Host"⟩ request inRack).toOption.map (fun answer =>
      (answer.length, (narrow answer busy).map (·.properties.keys))) =
        some (2, [[⟨"metrics/load"⟩, ⟨"name"⟩, ⟨"rack"⟩]]) := by
    decide +kernel
  cases hok : s.read ⟨"Host"⟩ request inRack with
  | error e =>
    rw [hok] at hread
    cases hread
  | ok answer =>
    rw [hok] at hread
    obtain ⟨-, hfilter, hself⟩ := read_filter_exact hostChanges hok
    exact ⟨answer, rfl, Prod.mk.inj (Option.some.inj hread), hshown, hfilter busy hshown, hself⟩

end Store
end ResourceQuery
