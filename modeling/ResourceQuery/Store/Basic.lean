import ResourceQuery.Predicate.Holds
import ResourceQuery.Request

/-!
# The store

A store holds a table for every resource type it knows: the schema of the type, the properties
it exposes and its rows in the order in which they were added.  The rows of a table are of its
type; a store cannot be built otherwise.
-/

namespace ResourceQuery

/-- What is stored of a resource type. -/
structure Table where
  schema : Schema
  /-- The properties that are exposed; without a set every property is. -/
  supported : Option (SortedSet PropertyId)
  /-- The rows, oldest first. -/
  rows : List Resource

namespace Table

/-- A table without anything. -/
def empty : Table := ⟨∅, none, []⟩

instance : Inhabited Table := ⟨empty⟩

/-- Whether all rows are of a type. -/
def OfType (table : Table) (t : ResourceType) : Prop := ∀ r ∈ table.rows, r.type = t

theorem ofType_empty (t : ResourceType) : empty.OfType t := by simp [OfType, empty]

end Table

/-- The tables by type. -/
structure Store where
  tables : SortedMap ResourceType Table
  ofType : ∀ t table, tables.get? t = some table → table.OfType t

namespace Store

instance : EmptyCollection Store := ⟨⟨∅, by simp⟩⟩

instance : Inhabited Store := ⟨∅⟩

/-- The table of a type, if the type is known. -/
def table? (s : Store) (t : ResourceType) : Option Table := s.tables.get? t

/-- Change the table of a type; an unknown type becomes known with an empty table first. -/
def modify (s : Store) (t : ResourceType) (f : Table → Table)
    (keeps : ∀ table : Table, table.OfType t → (f table).OfType t) : Store where
  tables := s.tables.insert t (f ((s.table? t).getD .empty))
  ofType t' table h := by
    rw [SortedMap.get?_insert] at h
    split at h
    · rename_i heq
      obtain rfl := Option.some.inj h
      rw [heq]
      refine keeps _ ?_
      cases hs : s.table? t with
      | none => exact Table.ofType_empty t
      | some old => exact s.ofType t old hs
    · exact s.ofType t' table h

/-- Set the schema of a type. -/
def register (s : Store) (t : ResourceType) (schema : Schema) : Store :=
  s.modify t (fun table => { table with schema }) fun _ h => h

/-- Set the properties that a type exposes. -/
def setSupported (s : Store) (t : ResourceType) (ids : SortedSet PropertyId) : Store :=
  s.modify t (fun table => { table with supported := some ids }) fun _ h => h

/-- Add a row behind the others of its type. -/
def addRow (s : Store) (r : Resource) : Store :=
  s.modify r.type (fun table => { table with rows := table.rows ++ [r] }) fun table h => by
    simpa [Table.OfType, or_imp, forall_and] using h

/-- The schema of a type; an unknown type has no key properties. -/
def schema (s : Store) (t : ResourceType) : Schema :=
  match s.table? t with
  | some table => table.schema
  | none => ∅

end Store
end ResourceQuery
