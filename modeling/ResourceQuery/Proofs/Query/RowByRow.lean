import ResourceQuery.Proofs.Query.Nesting

/-!
# Reading row by row

A query can be answered without batches: read the root, and for every row read each selected child
for the bindings of this row alone.  The result is the same tree, as long as the selected children
are nested by key.  So no row is lost or added by reading for many rows at once and dealing the rows
out afterwards.
-/

namespace ResourceQuery
namespace Query

/-- The tree of a child under given bindings, when it and everything beneath it is read for one row
at a time. -/
def nestedAlone (c : Cluster) : Nat → KeyMap → Query → ResultTree
  | 0, keyMap, q => .mk (showsCollection q.node keyMap) nestedProperties []
  | depth + 1, keyMap, q =>
    .mk (showsCollection q.node keyMap) nestedProperties
      ((q.prepare c).expand c (nestedAlone c depth) keyMap
        ((q.prepare c).node.rowsAlone c keyMap))

/-- The tree of a query when it is read for one row at a time. -/
def treeAlone (c : Cluster) (depth : Nat) (q : Query) : ResultTree :=
  let isCollection := showsCollection q.node q.node.keyMap
  .mk isCollection (rootProperties isCollection)
    ((q.prepare c).expand c (nestedAlone c depth) q.node.keyMap
      (pageRows q.node.page ((q.prepare c).node.rowsAlone c q.node.keyMap)))

variable {c : Cluster} {depth : Nat} {keyMaps : List KeyMap} {q q' : Query}

/-- The share of a fetched child is what it gives when it is read alone. -/
theorem Fetched.nestedTree_eq_nestedAlone (h : Fetched c depth keyMaps q q') :
    ∀ {keyMap : KeyMap} {d : Nat}, depth ≤ d → q.node.Covered c keyMaps keyMap →
      q'.NestsByKey c → q'.nestedTree c keyMap = nestedAlone c d keyMap q := by
  induction h with
  | idle depth q =>
    -- No bindings are covered by no key maps.
    rintro keyMap d - ⟨m, hm, -⟩
    cases hm
  | @read depth keyMaps q rows f _ hread hbeneath ih =>
    intro keyMap d hd hcovered hnests
    obtain ⟨d, rfl⟩ : ∃ k, d = k + 1 := ⟨d - 1, by omega⟩
    -- Both trees have the rows of a read for `keyMap` alone; the trees beneath them differ.
    rw [nestedTree_mapSelected hcovered hread hbeneath, nestedAlone]
    refine congrArg (ResultTree.mk _ _) (expand_congr fun row hrow e he => ?_)
    obtain ⟨hkey, hdeeper⟩ := nestsByKey_of_fetched hnests he (hbeneath e he)
    have hbelow := covered_of_mem_rowsAlone hcovered hread hrow hkey
    exact ih e he (Nat.le_of_succ_le_succ hd) hbelow hdeeper

/-- An execution that reaches its end shows the tree that is read row by row. -/
theorem execute_tree_eq_treeAlone {result : ExecutionResult}
    (hok : (q.execute c depth).outcome = .ok result)
    (hnests : (q.execute c depth).query.NestsByKey c) :
    ∀ d, depth ≤ d → result.tree = q.treeAlone c d := by
  intro d hd
  obtain ⟨rows, f, hexecuted, htree, -, visits, hquery⟩ := executed_of_ok hok
  rw [hquery, NestsByKey, nestings_settle] at hnests
  rw [htree, hexecuted.resultTree_eq, treeAlone]
  refine congrArg (ResultTree.mk _ _) (expand_congr fun row hrow e he => ?_)
  obtain ⟨hkey, hdeeper⟩ := nestsByKey_of_fetched hnests he (hexecuted.beneath e he)
  have hbelow := covered_of_mem_pageRows hexecuted.answer hrow hkey
  exact (hexecuted.beneath e he).nestedTree_eq_nestedAlone hd hbelow hdeeper

open Datacenter

/-- Racks, hosts and virtual machines; one host is stored twice. -/
def datacenter : Cluster :=
  cluster [rackRow "r1", rackRow "r2", hostRow "h1" "r1", hostRow "h2" "r2", hostRow "h2" "r2",
    machineRow "m1" "h2" "r2", machineRow "m2" "h1" "r1", machineRow "m3" "h2" "r2"]

/-- The query for the virtual machines on the hosts in all racks. -/
def machinesInRacks : Query :=
  selectPath datacenter none ["hosts", "machines"] (leaf (.fresh racks anyRack))

theorem machinesInRacks_tree_eq_treeAlone :
    ∃ result, (machinesInRacks.execute datacenter 2).outcome = .ok result ∧
      (machinesInRacks.execute datacenter 2).query.NestsByKey datacenter ∧
      result.tree.size = 2 ∧ result.tree = machinesInRacks.treeAlone datacenter 2 := by
  have hnests : (machinesInRacks.execute datacenter 2).query.NestsByKey datacenter := by
    decide +kernel
  have hsize : (match (machinesInRacks.execute datacenter 2).outcome with
      | .ok result => result.tree.size
      | .error _ => 0) = 2 := by
    decide +kernel
  cases hok : (machinesInRacks.execute datacenter 2).outcome with
  | error halt =>
    rw [hok] at hsize
    cases hsize
  | ok result =>
    rw [hok] at hsize
    exact ⟨result, rfl, hnests, hsize, execute_tree_eq_treeAlone hok hnests 2 (Nat.le_refl 2)⟩

end Query
end ResourceQuery
