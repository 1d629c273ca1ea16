import ResourceQuery.Resource

/-!
# Result trees

The result of a query is a tree: the rows of one node, in order, and under every row the
results of the sub-resources, by name.  A tree also carries properties of its own, texts
under names.
-/

namespace ResourceQuery

mutual

/-- The rows of a node of a query, with what belongs to them. -/
inductive ResultTree where
  /-- Whether the node denotes a collection, the properties of the tree, and its rows. -/
  | mk (isCollection : Bool) (properties : SortedMap String String) (rows : List ResultRow)

/-- A row with the results of its sub-resources. -/
inductive ResultRow where
  /-- The row, and the results by the names of the sub-resources, in the order of names. -/
  | mk (resource : Resource) (subResources : List (String × ResultTree))

end

namespace ResultTree

/-- Whether the node denotes a collection. -/
def isCollection : ResultTree → Bool
  | mk isCollection _ _ => isCollection

/-- The properties of the tree. -/
def properties : ResultTree → SortedMap String String
  | mk _ properties _ => properties

/-- The rows in order. -/
def rows : ResultTree → List ResultRow
  | mk _ _ rows => rows

instance : Inhabited ResultTree := ⟨⟨false, ∅, []⟩⟩

/-- The property that says whether a tree is shown as a collection. -/
def collectionProperty : String := "isCollection"

/-- The value of a property of the tree. -/
def property? (t : ResultTree) (name : String) : Option String := t.properties.get? name

/-- How many rows the node has. -/
def size (t : ResultTree) : Nat := t.rows.length

end ResultTree

namespace ResultRow

/-- The row itself. -/
def resource : ResultRow → Resource
  | mk resource _ => resource

/-- The results of the sub-resources, in the order of their names. -/
def subResources : ResultRow → List (String × ResultTree)
  | mk _ subResources => subResources

/-- The result of a sub-resource. -/
def subResource? (r : ResultRow) (name : String) : Option ResultTree :=
  Entries.get? name r.subResources

end ResultRow
end ResourceQuery
