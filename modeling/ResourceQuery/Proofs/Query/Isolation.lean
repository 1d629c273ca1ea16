import ResourceQuery.Proofs.Query.RowByRow
import ResourceQuery.Proofs.Query.Run

/-!
# Rows stand beneath the rows whose keys they carry

Beneath a row its own key is bound, and it stays bound until a row of the same type with a key of
its own rebinds it.  Every row that is shown satisfies the predicate of the bindings at its place.
So it carries the key of the nearest row above it of each type that its schema knows, whatever was
done with the query before and whatever bindings were left behind.
-/

namespace ResourceQuery

/-! ## Rows with the rows above them -/

namespace ResultTree

mutual

/-- Every row of a tree, with the rows above it from the outermost to the innermost. -/
def lines : ResultTree → List (List Resource × Resource)
  | mk _ _ rows => linesOfRows rows

/-- The lines of some rows. -/
def linesOfRows : List ResultRow → List (List Resource × Resource)
  | [] => []
  | .mk top subResources :: rest =>
    ([], top) :: (linesBeneath subResources).map (fun (above, row) => (top :: above, row)) ++
      linesOfRows rest

/-- The lines of the results of sub-resources. -/
def linesBeneath : List (String × ResultTree) → List (List Resource × Resource)
  | [] => []
  | (_, tree) :: rest => tree.lines ++ linesBeneath rest

end

theorem linesBeneath_eq : ∀ trees : List (String × ResultTree),
    linesBeneath trees = trees.flatMap fun (_, tree) => tree.lines
  | [] => rfl
  | (_, tree) :: rest => by rw [linesBeneath, linesBeneath_eq rest, List.flatMap_cons]

theorem linesOfRows_eq : ∀ rows : List ResultRow, linesOfRows rows = rows.flatMap fun r =>
    ([], r.resource) :: (r.subResources.flatMap fun (_, tree) => tree.lines).map
      fun (above, row) => (r.resource :: above, row)
  | [] => rfl
  | .mk top subResources :: rest => by
    rw [linesOfRows, linesBeneath_eq, linesOfRows_eq rest, List.flatMap_cons]
    rfl

/-- A line starts at a row of the tree, or goes on beneath one. -/
theorem mem_lines {tree : ResultTree} {above : List Resource} {row : Resource}
    (h : (above, row) ∈ tree.lines) : ∃ r ∈ tree.rows, (above = [] ∧ row = r.resource) ∨
      ∃ rest, above = r.resource :: rest ∧ ∃ e ∈ r.subResources, (rest, row) ∈ e.2.lines := by
  obtain ⟨isCollection, properties, rows⟩ := tree
  rw [lines, linesOfRows_eq] at h
  obtain ⟨r, hr, hline⟩ := List.mem_flatMap.1 h
  refine ⟨r, hr, ?_⟩
  rcases List.mem_cons.1 hline with htop | hbelow
  · obtain ⟨rfl, rfl⟩ := Prod.mk.inj htop
    exact .inl ⟨rfl, rfl⟩
  · obtain ⟨⟨rest, row'⟩, hrest, heq⟩ := List.mem_map.1 hbelow
    obtain ⟨rfl, rfl⟩ := Prod.mk.inj heq
    obtain ⟨e, he, hmem⟩ := List.mem_flatMap.1 hrest
    exact .inr ⟨rest, rfl, e, he, hmem⟩

end ResultTree

namespace Query

variable {c : Cluster} {q : Query} {keyMap : KeyMap}

/-! ## The rows that are shown -/

/-- The rows of a query are of its type, and so are those of the selected children beneath them. -/
inductive RowsTyped : Query → Prop where
  /-- A query without rows shows nothing beneath them. -/
  | intro {q : Query} (type : ∀ row ∈ q.node.rows, row.type = q.node.type)
      (beneath : q.node.rows ≠ [] → ∀ e ∈ q.selectedChildren, RowsTyped e.2) : RowsTyped q

theorem RowsTyped.type (h : q.RowsTyped) : ∀ row ∈ q.node.rows, row.type = q.node.type := by
  cases h with
  | intro type _ => exact type

theorem RowsTyped.beneath (h : q.RowsTyped) {row : Resource} (hrow : row ∈ q.node.rows)
    {e : String × Query} (he : e ∈ q.selectedChildren) : e.2.RowsTyped := by
  cases h with
  | intro _ beneath => exact beneath (List.ne_nil_of_mem hrow) e he

theorem rowsTyped_mapSelected {f : Query → Query} {keyMaps : List KeyMap} {rows : List Resource}
    {p : Option Predicate} (hread : (q.prepare c).answer c p = .ok rows)
    (hbeneath : ∀ e ∈ (q.asked c keyMaps rows).selectedChildren, RowsTyped (f e.2)) :
    RowsTyped ((q.asked c keyMaps rows).mapSelected f) := by
  refine .intro (fun row hrow => ?_) fun _ e he => ?_
  · have htype := (Store.exists_stored_of_read hread (Resource.mem_of_mem_distinct hrow)).1
    rw [mapSelected_node, asked_type, htype, prepare_type]
  · rw [selectedChildren_mapSelected] at he
    obtain ⟨e', he', rfl⟩ := List.mem_map.1 he
    exact hbeneath e' he'

theorem Fetched.rowsTyped {depth : Nat} {keyMaps : List KeyMap} {q' : Query}
    (h : Fetched c depth keyMaps q q') : RowsTyped q' := by
  induction h with
  | idle depth q => exact .intro (fun row hrow => by cases hrow) fun hrows => absurd rfl hrows
  | read f _ hread _ ih => exact rowsTyped_mapSelected hread ih

/-- A line starts at one of the rows that a tree was made of, or goes on beneath one of them in the
tree of a selected child. -/
theorem mem_lines_expand {isCollection : Bool} {properties : SortedMap String String}
    {rows above : List Resource} {row : Resource}
    (h : (above, row) ∈
      (ResultTree.mk isCollection properties (q.expand c (nestedTree c) keyMap rows)).lines) :
    ∃ top ∈ rows, (above = [] ∧ row = top) ∨ ∃ rest, above = top :: rest ∧
      ∃ e ∈ q.selectedChildren, (rest, row) ∈
        (e.2.nestedTree c (e.2.node.bindingsUnder (c.rowKeyMap top keyMap))).lines := by
  obtain ⟨r, hr, hline⟩ := ResultTree.mem_lines h
  obtain ⟨top, htop, rfl⟩ := List.mem_map.1 hr
  refine ⟨top, htop, hline.imp_right ?_⟩
  rintro ⟨rest, rfl, e', he', hmem⟩
  obtain ⟨e, he, rfl⟩ := List.mem_map.1 he'
  exact ⟨rest, rfl, e, he, hmem⟩

/-! ## What the bindings say about the rows -/

/-- A key that is bound at a place is carried by every row there and beneath, up to a row that
rebinds it. -/
theorem key?_of_bound {t : ResourceType} {key : String} {id : PropertyId} {row : Resource}
    (hid : (c.store.schema row.type).keyOf? t = some id) :
    ∀ {above : List Resource} {q : Query} {keyMap : KeyMap}, q.RowsTyped →
      keyMap.bound? t = some key → (∀ b ∈ above, b.type = t → c.rowKey? b t = none) →
      (above, row) ∈ (q.nestedTree c keyMap).lines → row.key? id = some key := by
  intro above
  induction above with
  | nil =>
    intro q keyMap htyped hbound _ hline
    rw [nestedTree, resultRows_eq] at hline
    obtain ⟨top, htop, ⟨-, rfl⟩ | ⟨_, hnil, _⟩⟩ := mem_lines_expand hline
    · -- The row itself is shown here, so it satisfies the predicate of `keyMap`.
      obtain ⟨hrow, hadmits⟩ := mem_narrow.1 htop
      have hschema : (q.node.schema c).keyOf? t = some id := by
        rw [QueryNode.schema, ← htyped.type row hrow]
        exact hid
      exact ((q.node.admits_predicateFor c).1 hadmits).2 t key id hbound hschema
    · cases hnil
  | cons b above ih =>
    intro q keyMap htyped hbound hnone hline
    rw [nestedTree, resultRows_eq] at hline
    obtain ⟨top, htop, ⟨hnil, _⟩ | ⟨rest, heq, e, he, hline⟩⟩ := mem_lines_expand hline
    · cases hnil
    · obtain ⟨rfl, rfl⟩ := List.cons.inj heq
      -- The row above does not rebind the type, so it stays bound beneath it.
      have hstays : (c.rowKeyMap b keyMap).bound? t = some key :=
        c.bound?_rowKeyMap_of_bound b hbound (hnone b (List.mem_cons_self ..))
      have hbelow := (e.2.node.bindingsUnder_extends (c.rowKeyMap b keyMap)).bound? hstays
      exact ih (htyped.beneath (mem_narrow.1 htop).1 he) hbelow
        (fun b' hb' => hnone b' (List.mem_cons_of_mem _ hb')) hline

/-- Beneath a row with a key of its own stand only rows that carry this key. -/
theorem key?_of_line {a row : Resource} {key : String} {id : PropertyId} {inner : List Resource}
    (hkey : c.rowKey? a a.type = some key)
    (hnearest : ∀ b ∈ inner, b.type = a.type → c.rowKey? b a.type = none)
    (hid : (c.store.schema row.type).keyOf? a.type = some id) :
    ∀ {outer rows : List Resource} {q : Query} {keyMap : KeyMap} {isCollection : Bool}
      {properties : SortedMap String String}, q.RowsTyped → (∀ r ∈ rows, r ∈ q.node.rows) →
      (outer ++ a :: inner, row) ∈
        (ResultTree.mk isCollection properties (q.expand c (nestedTree c) keyMap rows)).lines →
      row.key? id = some key := by
  intro outer
  induction outer with
  | nil =>
    intro rows q keyMap _ _ htyped hrows hline
    obtain ⟨top, htop, ⟨hnil, _⟩ | ⟨rest, heq, e, he, hline⟩⟩ := mem_lines_expand hline
    · cases hnil
    · -- The key is bound right beneath `a`, whatever `keyMap` had there before.
      obtain ⟨rfl, rfl⟩ := List.cons.inj heq
      have hself := c.bound?_rowKeyMap_self a hkey keyMap
      have hbelow := (e.2.node.bindingsUnder_extends (c.rowKeyMap a keyMap)).bound? hself
      exact key?_of_bound hid (htyped.beneath (hrows a htop) he) hbelow hnearest hline
  | cons b outer ih =>
    intro rows q keyMap _ _ htyped hrows hline
    obtain ⟨top, htop, ⟨hnil, _⟩ | ⟨rest, heq, e, he, hline⟩⟩ := mem_lines_expand hline
    · cases hnil
    · obtain ⟨rfl, rfl⟩ := List.cons.inj heq
      rw [nestedTree, resultRows_eq] at hline
      exact ih (htyped.beneath (hrows b htop) he) (fun r hr => (mem_narrow.1 hr).1) hline

/-! ## Runs -/

theorem Executed.rowsTyped {depth : Nat} {rows : List Resource} {f : Query → Query}
    (h : Executed c depth q rows f) : (q.executed c rows f).RowsTyped :=
  rowsTyped_mapSelected h.answer fun e he => (h.beneath e he).rowsTyped

/-- In every result of every run, a row carries the own key of the nearest row above it that has
one, for each type that its schema knows. -/
theorem run_key_eq {steps : List (List String × Operation)} {result : ExecutionResult}
    (hrun : result ∈ (q.run c steps).2) {outer inner : List Resource} {a row : Resource}
    (hline : (outer ++ a :: inner, row) ∈ result.tree.lines) {key : String}
    (hkey : c.rowKey? a a.type = some key)
    (hnearest : ∀ b ∈ inner, b.type = a.type → c.rowKey? b b.type = none) {id : PropertyId}
    (hid : (c.store.schema row.type).keyOf? a.type = some id) : row.key? id = some key := by
  obtain ⟨q', depth, hok⟩ := execute_of_mem_run hrun
  obtain ⟨rows, f, h, htree, -⟩ := executed_of_ok hok
  rw [htree, resultTree, resultRows_eq] at hline
  refine key?_of_line hkey (fun b hb ht => ht ▸ hnearest b hb ht) hid h.rowsTyped
    (fun r hr => ?_) hline
  rw [shownRows_eq] at hr
  exact (mem_narrow.1 (mem_of_mem_pageRows hr)).1

open Datacenter

/-- A run that asks for all racks, then for the last one with other hosts left out. -/
def twoExecutions : List (List String × Operation) :=
  [([], .execute 2), (["hosts"], .setPredicate (some (.equals ⟨"name"⟩ (.string "h2")))),
    ([], .setPage (some ⟨.ending, 1, none⟩)), ([], .execute 2)]

/-- Whether a line leads from a rack over a host to a virtual machine. -/
def leadsToMachine (rackKey : String) (line : List Resource × Resource) : Bool :=
  match line with
  | ([a, b], row) =>
    datacenter.rowKey? a a.type == some rackKey && a.type == rack && b.type == host &&
      row.type == machine
  | _ => false

theorem twoExecutions_machine_carries_rack :
    ∃ result ∈ (machinesInRacks.run datacenter twoExecutions).2, ∃ a b row,
      ([] ++ a :: [b], row) ∈ result.tree.lines ∧ datacenter.rowKey? a a.type = some "r2" ∧
        (∀ b' ∈ [b], b'.type = a.type → datacenter.rowKey? b' b'.type = none) ∧
        (datacenter.store.schema row.type).keyOf? a.type = some ⟨"rack"⟩ ∧
        row.key? ⟨"rack"⟩ = some "r2" := by
  have hline : ∃ result ∈ (machinesInRacks.run datacenter twoExecutions).2,
      ∃ line ∈ result.tree.lines, leadsToMachine "r2" line = true := by
    decide +kernel
  obtain ⟨result, hrun, ⟨above, row⟩, hline, hleads⟩ := hline
  obtain _ | ⟨a, _ | ⟨b, _ | ⟨b', rest⟩⟩⟩ := above
  · cases hleads
  · cases hleads
  · obtain ⟨hkey, ha, hb, hrow⟩ : datacenter.rowKey? a a.type = some "r2" ∧ a.type = rack ∧
        b.type = host ∧ row.type = machine := by
      simpa [leadsToMachine, and_assoc] using hleads
    have hnearest : ∀ b' ∈ [b], b'.type = a.type → datacenter.rowKey? b' b'.type = none := by
      simp [ha, hb, rack, host]
    have hid : (datacenter.store.schema row.type).keyOf? a.type = some ⟨"rack"⟩ := by
      rw [ha, hrow]
      decide +kernel
    have hplace : ([] ++ a :: [b], row) ∈ result.tree.lines := hline
    exact ⟨result, hrun, a, b, row, hplace, hkey, hnearest, hid,
      run_key_eq hrun hplace hkey hnearest hid⟩
  · cases hleads

end Query
end ResourceQuery
