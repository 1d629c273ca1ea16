import ResourceQuery.Proofs.Query.KeyProjection
import ResourceQuery.Proofs.Query.Refusal

/-!
# Queries without sub-resources

A query that selects no sub-resource when it is read is carried out with this one read: it succeeds
when the read is answered, and its result is the rows of the answer, or the page that is cut out of
them, with nothing beneath.
-/

namespace ResourceQuery

theorem QueryNode.length_rowsAlone_le (n : QueryNode) (c : Cluster) (keyMap : KeyMap) :
    (n.rowsAlone c keyMap).length ≤ (c.store.rows n.type).length := by
  unfold rowsAlone Store.rows
  cases c.store.table? n.type with
  | none => exact Nat.le_refl _
  | some table =>
    calc (Resource.distinct (table.restrict n.request (n.predicateFor c keyMap)
          (table.matching (n.predicateFor c keyMap)))).length
        ≤ (table.restrict n.request (n.predicateFor c keyMap)
          (table.matching (n.predicateFor c keyMap))).length :=
          (Distinct.keepNew_sublist _ [] _).length_le
      _ = (table.matching (n.predicateFor c keyMap)).length := by
          rw [Table.restrict_eq_map, List.length_map]
      _ ≤ table.rows.length := List.length_filter_le _ _

namespace Query

variable {c : Cluster} {q : Query} {depth : Nat} {page : Option PageRequest}
  {rows : List Resource} {result : ExecutionResult}

/-- No sub-resource is selected when the query is read: neither by what was asked for, nor on the
way to its keys, nor because nothing was asked for. -/
def Flat (c : Cluster) (q : Query) : Prop := (q.prepare c).node.selected.isEmpty = true

instance : Decidable (q.Flat c) := inferInstanceAs (Decidable (_ = true))

namespace Flat

/-- A collection on which no sub-resource is selected is read without one, if its type has a key and
selecting the keys selects nothing else. -/
theorem of_projectsKeys (hkeys : q.ProjectsKeys c) (hne : q.node.collectionKeys c ≠ [])
    (hopen : q.node.isCollection = true) (hselected : q.node.selected = ∅) : q.Flat c := by
  obtain ⟨id, hid⟩ := List.exists_mem_of_ne_nil _ hne
  have hprepare : q.prepare c = q.addKeys c := by
    rw [prepare, if_pos hopen]
    exact expandDefault_of_mem ((hkeys.properties id).2 (.inr hid))
  rw [Flat, hprepare, hkeys.selected, hselected]
  rfl

theorem setPage (h : q.Flat c) : (q.setPage page).Flat c := by
  rw [Flat, prepare_setPage]
  exact h

theorem selectedChildren (h : q.Flat c) : (q.prepare c).selectedChildren = [] := by
  refine List.eq_nil_iff_forall_not_mem.2 fun e he => ?_
  exact SortedSet.isEmpty_iff_forall_not_mem.1 h e.1 (mem_selectedChildren.1 he).2

/-- When the read of the root is answered there is a result. -/
theorem exists_ok (h : q.Flat c)
    (hanswer : (q.prepare c).answer c (q.node.predicate c) = .ok rows) :
    ∃ result, (q.execute c depth).outcome = .ok result := by
  obtain ⟨hroot, hstate⟩ := readRoot_of_answer hanswer
  rw [exists_ok_iff, reads, Stage.andThen_of_none hroot, hstate]
  have hbeneath : (fetchBeneath c (fetch c depth)
      ((q.asked c [q.node.keyMap] rows).shownRows c).1
      (q.asked c [q.node.keyMap] rows)).SucceedsIff fun _ => True := by
    refine fetchBeneath_succeedsIff fun e he => ?_
    rw [asked_selectedChildren, h.selectedChildren] at he
    cases he
  exact hbeneath.2 fun _ _ => trivial

/-- The rows of the result have nothing beneath them. -/
theorem tree_eq (h : q.Flat c) (hok : (q.execute c depth).outcome = .ok result) :
    result.tree = .mk (showsCollection q.node q.node.keyMap)
      (rootProperties (showsCollection q.node q.node.keyMap))
      ((pageRows q.node.page ((q.prepare c).node.rowsAlone c q.node.keyMap)).map fun row =>
        .mk row []) := by
  obtain ⟨rows, f, hexecuted, htree, -⟩ := executed_of_ok hok
  rw [htree, hexecuted.resultTree_eq]
  simp only [expand, h.selectedChildren, List.map_nil]

end Flat
end Query
end ResourceQuery
