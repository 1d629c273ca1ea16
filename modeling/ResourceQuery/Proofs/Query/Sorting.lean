import ResourceQuery.Proofs.Query.Paging

/-!
# Sorted pages

The rows of a page are sorted after they were read, so they are compared by what the answer to the
read shows of them.  That is the order of the stored rows when the answer keeps the properties by
which they are sorted.  Nothing asks for these properties on its own account: a page that is sorted
by a property that is neither selected nor a key keeps the stored order.
-/

namespace ResourceQuery

/-! ## What an answer keeps of a row -/

namespace Table

variable {table : Table} {request : Request} {p : Option Predicate} {rows : List Resource}

/-- The answer to a read keeps the values of a property. -/
def Keeps (table : Table) (request : Request) (p : Option Predicate) (id : PropertyId) : Prop :=
  request.isAll = true ∨ Resource.isSelected (table.answerIds request p) id = true

instance (id : PropertyId) : Decidable (table.Keeps request p id) :=
  inferInstanceAs (Decidable (_ ∨ _))

theorem keeps_of_mem_keys {id : PropertyId} (h : id ∈ table.schema.keys.values) :
    table.Keeps request p id :=
  .inr (Resource.isSelected_of_mem (mem_answerIds.2 (.inr (.inl h))))

theorem value?_restrictRow {id : PropertyId} (h : table.Keeps request p id) (r : Resource) :
    (table.restrictRow request p r).value? id = r.value? id := by
  unfold restrictRow
  split
  · rfl
  · rename_i hall
    exact Resource.value?_project_of_isSelected (h.resolve_left hall) r

/-- Any two rows of the table differ in the value of some key property. -/
def KeysTellApart (table : Table) : Prop :=
  table.rows.Pairwise fun r s =>
    ∃ id ∈ table.schema.keys.values, ¬ Option.Rel Json.Alike (r.value? id) (s.value? id)

/-- Whether values that may be missing are both missing or both there and alike. -/
def decidableAlike : (a b : Option Json) → Decidable (Option.Rel Json.Alike a b)
  | none, none => isTrue .none
  | some a, some b => decidable_of_iff (a.Alike b) ⟨.some, fun | .some h => h⟩
  | none, some _ => isFalse nofun
  | some _, none => isFalse nofun

instance : Decidable table.KeysTellApart :=
  haveI (a b : Option Json) : Decidable (Option.Rel Json.Alike a b) := decidableAlike a b
  inferInstanceAs (Decidable (table.rows.Pairwise fun _ _ => ∃ id ∈ table.schema.keys.values, ¬ _))

/-- Every answer shows the keys, so rows that the keys tell apart are all different in it. -/
theorem distinct_restrict (h : table.KeysTellApart) (hrows : rows.Sublist table.rows) :
    Resource.distinct (table.restrict request p rows) = table.restrict request p rows := by
  refine Distinct.keepNew_eq_self ?_
  rw [List.nil_append, restrict_eq_map]
  refine List.pairwise_map.2 ((h.sublist hrows).imp fun {r s} hdiffer => ?_)
  obtain ⟨id, hid, hvalues⟩ := hdiffer
  rw [Bool.eq_false_iff]
  intro hsame
  have halike := (Resource.alike_of_same hsame).2 id
  rw [value?_restrictRow (keeps_of_mem_keys hid), value?_restrictRow (keeps_of_mem_keys hid)]
    at halike
  exact hvalues halike

end Table

/-! ## Sorting what an answer shows -/

theorem compareRows_congr {keys : List SortKey} {r r' s s' : Resource}
    (hr : ∀ key ∈ keys, r.value? key.id = r'.value? key.id)
    (hs : ∀ key ∈ keys, s.value? key.id = s'.value? key.id) :
    compareRows keys r s = compareRows keys r' s' := by
  induction keys with
  | nil => rfl
  | cons key keys ih =>
    obtain ⟨hkey, hkeys⟩ := List.forall_mem_cons.1 hr
    obtain ⟨hkey', hkeys'⟩ := List.forall_mem_cons.1 hs
    have hfirst : key.compareRows r s = key.compareRows r' s' := by
      simp only [SortKey.compareRows, hkey, hkey']
    have hrest := ih hkeys hkeys'
    unfold compareRows at hrest ⊢
    rw [List.foldr_cons, List.foldr_cons, hfirst, hrest]

namespace PageRequest

variable {page : PageRequest} {table : Table} {request : Request} {p : Option Predicate}

/-- A page can be sorted and cut out before or after its rows are restricted, if the answer keeps
what they are sorted by. -/
theorem selectSorted_restrict
    (hkeeps : ∀ key ∈ page.sort.getD [], table.Keeps request p key.id) (rows : List Resource) :
    (page.selectSorted (table.restrict request p rows)).rows =
      table.restrict request p (page.selectSorted rows).rows := by
  have horder : page.sorted (id ∘ table.restrictRow request p) rows = page.sorted id rows := by
    unfold sorted
    cases hsort : page.sort with
    | none => rfl
    | some keys =>
      have hkept : ∀ key ∈ keys, ∀ r,
          (table.restrictRow request p r).value? key.id = r.value? key.id := by
        intro key hkey r
        exact Table.value?_restrictRow (hkeeps key (by simpa [hsort] using hkey)) r
      have hcompare : ∀ r s, compareRows keys (table.restrictRow request p r)
          (table.restrictRow request p s) = compareRows keys r s :=
        fun r s => compareRows_congr (fun key hkey => hkept key hkey r)
          fun key hkey => hkept key hkey s
      simp only [Function.comp_apply, id_eq, hcompare]
  rw [selectSorted_eq, selectSorted_eq, Table.restrict_eq_map, Table.restrict_eq_map, sorted_map,
    horder]
  exact (page.select_map _ _).1

end PageRequest

/-! ## The rows of a sorted page -/

namespace Query

variable {c : Cluster} {q : Query} {depth : Nat} {result : ExecutionResult}

/-- The rows of a result are the page that is cut out of the answer to the read of the root. -/
theorem rows_of_ok (h : (q.execute c depth).outcome = .ok result) :
    result.tree.rows.map ResultRow.resource =
      pageRows q.node.page ((q.prepare c).node.rowsAlone c q.node.keyMap) := by
  obtain ⟨rows, f, hexecuted, htree, -⟩ := executed_of_ok h
  rw [htree, hexecuted.resultTree_eq]
  simp only [ResultTree.rows, expand, List.map_map]
  exact List.map_id _

/-- A page holds, as the answer shows them, the rows that it cuts out of the stored rows that the
query admits, sorted by their stored values: if the keys tell the stored rows apart, and the answer
keeps the properties by which the page is sorted. -/
theorem execute_rows_eq_selectSorted {page : PageRequest} {table : Table}
    (hok : (q.execute c depth).outcome = .ok result) (hpage : q.node.page = some page)
    (htable : c.store.table? q.node.type = some table) (hkeys : table.KeysTellApart)
    (hkeeps : ∀ key ∈ page.sort.getD [],
      table.Keeps (q.prepare c).node.request (q.node.predicate c) key.id) :
    result.tree.rows.map ResultRow.resource =
      table.restrict (q.prepare c).node.request (q.node.predicate c)
        (page.selectSorted (table.matching (q.node.predicate c))).rows := by
  have halone : (q.prepare c).node.rowsAlone c q.node.keyMap =
      table.restrict (q.prepare c).node.request (q.node.predicate c)
        (table.matching (q.node.predicate c)) := by
    rw [QueryNode.rowsAlone, prepare_type, htable, prepare_predicateFor]
    exact Table.distinct_restrict hkeys List.filter_sublist
  rw [rows_of_ok hok, halone, hpage]
  exact PageRequest.selectSorted_restrict hkeeps _

open Datacenter

/-- A host and how busy it is. -/
def busyRow (name load : String) : Resource := row host [("name", name), ("load", load)]

/-- Two hosts, of which the second is less busy. -/
def hostTable : Table :=
  ⟨.ofList [(host, ⟨"name"⟩), (rack, ⟨"rack"⟩)], none, [busyRow "h1" "2", busyRow "h2" "1"]⟩

/-- A datacenter with these hosts. -/
def busyHosts : Cluster := cluster hostTable.rows

theorem busyHosts_table? : busyHosts.store.table? host = some hostTable := rfl

/-- The page with the least busy host. -/
def leastBusy : PageRequest := ⟨.beginning, 1, some [⟨⟨"load"⟩, .ascending⟩]⟩

theorem leastBusy_rows :
    (leastBusy.selectSorted (hostTable.matching none)).rows = [busyRow "h2" "1"] := by
  have horder : (compareRows [⟨⟨"load"⟩, .ascending⟩] (busyRow "h1" "2")
      (busyRow "h2" "1")).isLE = false := by
    decide +kernel
  have hsorted : sortRows [⟨⟨"load"⟩, .ascending⟩] (hostTable.matching none) =
      [busyRow "h2" "1", busyRow "h1" "2"] := by
    show List.mergeSort [busyRow "h1" "2", busyRow "h2" "1"] _ = _
    rw [mergeSort_pair, horder]
    rfl
  rw [PageRequest.selectSorted]
  show (leastBusy.select (sortRows [⟨⟨"load"⟩, .ascending⟩] _)).rows = _
  rw [hsorted]
  rfl

/-- The query for the hosts, of which the page with the least busy one is shown. -/
def leastBusyHost : Query :=
  (leaf (.fresh hosts (SortedMap.insert ∅ host .unbound))).setPage (some leastBusy)

/-- The same query, with the load of the hosts selected. -/
def leastBusyLoad : Query := leastBusyHost.selectLocal busyHosts none ⟨"load"⟩

/-- The names of some hosts. -/
def namesOf (rows : List Resource) : List (Option String) := rows.map fun r => r.key? ⟨"name"⟩

theorem rows_leastBusyLoad_eq_selectSorted :
    ∃ result, (leastBusyLoad.execute busyHosts 0).outcome = .ok result ∧
      hostTable.KeysTellApart ∧ namesOf (result.tree.rows.map ResultRow.resource) = [some "h2"] ∧
      result.tree.rows.map ResultRow.resource =
        hostTable.restrict (leastBusyLoad.prepare busyHosts).node.request none
          (leastBusy.selectSorted (hostTable.matching none)).rows := by
  have hkeys : hostTable.KeysTellApart := by decide +kernel
  obtain ⟨result, hok⟩ : ∃ result, (leastBusyLoad.execute busyHosts 0).outcome = .ok result :=
    ⟨_, rfl⟩
  have hrows := execute_rows_eq_selectSorted hok rfl busyHosts_table? hkeys (by decide +kernel)
  refine ⟨result, hok, hkeys, ?_, hrows⟩
  rw [hrows, show leastBusyLoad.node.predicate busyHosts = none from rfl, leastBusy_rows]
  decide +kernel

/-- Without the load the answer shows the names alone, and the page keeps the stored order. -/
theorem rows_leastBusyHost_ne_selectSorted :
    ∃ result, (leastBusyHost.execute busyHosts 0).outcome = .ok result ∧
      hostTable.KeysTellApart ∧
      result.tree.rows.map ResultRow.resource ≠
        hostTable.restrict (leastBusyHost.prepare busyHosts).node.request none
          (leastBusy.selectSorted (hostTable.matching none)).rows := by
  obtain ⟨result, hok⟩ : ∃ result, (leastBusyHost.execute busyHosts 0).outcome = .ok result :=
    ⟨_, rfl⟩
  -- The answer shows two rows that do not differ in their load, for neither has one.
  have halone : ∃ r s, (leastBusyHost.prepare busyHosts).node.rowsAlone busyHosts
      leastBusyHost.node.keyMap = [r, s] ∧
      (compareRows [⟨⟨"load"⟩, .ascending⟩] r s).isLE = true ∧ r.key? ⟨"name"⟩ = some "h1" :=
    ⟨_, _, rfl, by decide +kernel, by decide +kernel⟩
  have hshown : namesOf (result.tree.rows.map ResultRow.resource) = [some "h1"] := by
    obtain ⟨r, s, halone, horder, hname⟩ := halone
    have hsorted : sortRows [⟨⟨"load"⟩, .ascending⟩] [r, s] = [r, s] := by
      rw [sortRows, mergeSort_pair, if_pos horder]
    rw [rows_of_ok hok, halone]
    show namesOf (leastBusy.select (sortRows [⟨⟨"load"⟩, .ascending⟩] [r, s])).rows = _
    rw [hsorted]
    exact congrArg (fun name => [name]) hname
  refine ⟨result, hok, by decide +kernel, fun hrows => ?_⟩
  rw [hrows, leastBusy_rows] at hshown
  exact absurd hshown (by decide +kernel)

end Query
end ResourceQuery
