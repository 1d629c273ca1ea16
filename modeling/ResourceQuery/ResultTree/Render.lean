import ResourceQuery.ResultTree.Basic

/-!
# Rendering result trees

A row becomes an object in which the segments of a property id are the names on the way to
its value.  A sub-resource is added to the object of its row: a collection as an array, a
single resource as an object, or `null` when there is none.  The outermost collection stands
in the field `items` of an object of its own.
-/

namespace ResourceQuery

namespace Resource

/-- Put a value at the end of a path of names.  Objects on the way are made when they are
missing; what is there already and is no object stays, and the value is dropped. -/
def insertAt (value : Json) : List String → List (String × Json) → List (String × Json)
  | [], fields => fields
  | [name], fields => Entries.insert name value fields
  | name :: path, fields =>
    match Entries.get? name fields with
    | none => Entries.insert name (.object (insertAt value path [])) fields
    | some (.object inner) => Entries.insert name (.object (insertAt value path inner)) fields
    | some _ => fields

/-- The fields of a row, with the properties in the order of their ids. -/
def render (r : Resource) : List (String × Json) :=
  r.properties.entries.foldl
    (fun fields (id, value) => insertAt value (PropertyId.segments id.text) fields) []

end Resource

mutual

/-- The object of a row. -/
def ResultRow.render : ResultRow → Json
  | .mk resource subResources => .object (renderSubResources resource.render subResources)

/-- The objects of rows. -/
def renderRows : List ResultRow → List Json
  | [] => []
  | row :: rows => row.render :: renderRows rows

/-- The value of a tree beneath a row. -/
def ResultTree.renderNested : ResultTree → Json
  | .mk isCollection _ rows =>
    if isCollection then .array (renderRows rows) else (renderRows rows).headD .null

/-- Add the values of sub-resources to the fields of a row; a name that is taken is
overwritten. -/
def renderSubResources (fields : List (String × Json)) :
    List (String × ResultTree) → List (String × Json)
  | [] => fields
  | (name, tree) :: rest => renderSubResources (Entries.insert name tree.renderNested fields) rest

end

/-- The object of a whole tree. -/
def ResultTree.render (tree : ResultTree) : Json :=
  if tree.isCollection then .object [("items", .array (renderRows tree.rows))]
  else (renderRows tree.rows).headD (.object [])

/-- What paging says about a result. -/
structure PageInfo where
  /-- How many rows come before the page. -/
  offset : Nat
  /-- How many rows there are on all pages. -/
  total : Nat
deriving DecidableEq

/-- The result of a query. -/
structure ExecutionResult where
  tree : ResultTree
  page : Option PageInfo

/-- The object of a result; a page adds the number of all rows. -/
def ExecutionResult.render (result : ExecutionResult) : Json :=
  match result.page, result.tree.render with
  | some page, .object fields => .object (Entries.insert "itemTotal" (Json.ofNat page.total) fields)
  | _, json => json

end ResourceQuery
