import ResourceQuery.Proofs.Except
import ResourceQuery.Query.Execution

/-!
# Runs of operations

A query is used through a few operations, on its root or on a descendant, in any order and any
number of times.  Whatever a run shows was shown by an execution of some query: what holds of the
result of every execution holds of every result of every run.
-/

namespace ResourceQuery

/-- What can be done with a node of a query. -/
inductive Operation where
  | addProperty (category name : Option String) (range : Option TimeRange)
  | addFields (fields : String)
  | addLocalProperty (id : PropertyId)
  | setPredicate (p : Option Predicate)
  | setPage (page : Option PageRequest)
  | materialize
  | execute (depth : Nat)

namespace Operation

/-- The node after an operation, and the result of an execution that reached its end. -/
def apply (c : Cluster) : Operation → Query → Query × Option ExecutionResult
  | addProperty category name range, q => (q.addProperty c category name range, none)
  | addFields fields, q => ((q.addFields c fields).toOption.getD q, none)
  | addLocalProperty id, q => (q.addLocalProperty id, none)
  | setPredicate p, q => (q.setPredicate p, none)
  | setPage page, q => (q.setPage page, none)
  | materialize, q => (q.materialize c, none)
  | execute depth, q => ((q.execute c depth).query, (q.execute c depth).outcome.toOption)

theorem execute_of_apply {c : Cluster} {op : Operation} {q : Query} {result : ExecutionResult}
    (h : (op.apply c q).2 = some result) :
    ∃ depth, (q.execute c depth).outcome = .ok result := by
  cases op with
  | execute depth => exact ⟨depth, eq_ok_of_toOption h⟩
  | _ => cases h

end Operation

namespace Query

/-- The query after a run of operations, each at the node under a path of names, and the results
of the executions among them. -/
def run (c : Cluster) : List (List String × Operation) → Query → Query × List ExecutionResult
  | [], q => (q, [])
  | (path, op) :: rest, q =>
    let (q', result) := q.updateAt c (op.apply c) path
    let (q'', results) := q'.run c rest
    (q'', result.join.toList ++ results)

/-- What is done at the end of a path is done to some query. -/
theorem exists_of_updateAt {α : Type} {c : Cluster} {f : Query → Query × α} {a : α} :
    ∀ {path : List String} {q : Query}, (q.updateAt c f path).2 = some a → ∃ q', (f q').2 = a
  | [], q, h => ⟨q, Option.some.inj h⟩
  | name :: path, q, h => by
    unfold updateAt at h
    split at h
    · cases h
    · exact exists_of_updateAt h

theorem execute_of_mem_run {c : Cluster} {result : ExecutionResult} :
    ∀ {steps : List (List String × Operation)} {q : Query}, result ∈ (q.run c steps).2 →
      ∃ q' depth, (execute c depth q').outcome = .ok result
  | [], q, h => by cases h
  | (path, op) :: rest, q, h => by
    rcases List.mem_append.1 h with h | h
    · have hjoin := Option.join_eq_some_iff.1 (Option.mem_toList.1 h)
      obtain ⟨q', hq'⟩ := exists_of_updateAt hjoin
      exact ⟨q', op.execute_of_apply hq'⟩
    · exact execute_of_mem_run h

end Query
end ResourceQuery
