import ResourceQuery.Query.Error
import ResourceQuery.Query.Node

/-!
# Queries

A query is a node with its children, one for every sub-resource that the catalog defines,
under the names by which the definition exposes them.  The children are made when they are
first needed; they start from the key map that the node has at that moment.
-/

namespace ResourceQuery

/-- A tree of nodes. -/
inductive Query where
  /-- A node, and its children by name in the order of names, once they are made. -/
  | mk (node : QueryNode) (children : Option (List (String × Query)))

namespace Query

/-- The node at the root. -/
def node : Query → QueryNode
  | mk node _ => node

/-- The children, if they are made. -/
def children : Query → Option (List (String × Query))
  | mk _ children => children

/-- Change the node at the root. -/
def mapNode (f : QueryNode → QueryNode) (q : Query) : Query := mk (f q.node) q.children

/-- A query without children yet. -/
def leaf (node : QueryNode) : Query := mk node none

/-- The query for a type under given bindings, if the catalog knows the type. -/
def new (c : Cluster) (type : ResourceType) (keyMap : KeyMap) : Except QueryError Query :=
  match c.catalog.definition? type with
  | some definition => .ok (leaf (.fresh definition keyMap))
  | none => .error (.unknownType type)

/-! ## Children -/

/-- The child for a sub-resource: it selects its own key and the foreign keys that the
definition asks for. -/
def child (c : Cluster) (keyMap : KeyMap) (sub : SubResource) (definition : ResourceDefinition) :
    Query :=
  let node := QueryNode.fresh definition keyMap
  let keys := (c.store.schema sub.type).keysOf (sub.type :: sub.foreignKeys)
  leaf { node.addProperties keys with exposedAsCollection := sub.isCollection }

/-- The children that a node gives rise to.  A sub-resource without a definition gives none,
and of two under one name the later counts. -/
def newChildren (c : Cluster) (node : QueryNode) : List (String × Query) :=
  Entries.ofList (node.definition.subResources.filterMap fun sub => do
    let definition ← c.catalog.definition? sub.type
    return (definition.exposedName sub.isCollection, child c node.keyMap sub definition))

/-- The children, made now if they were not made before. -/
def childrenIn (c : Cluster) (q : Query) : List (String × Query) :=
  q.children.getD (newChildren c q.node)

/-- The query with its children made. -/
def materialize (c : Cluster) (q : Query) : Query := mk q.node (some (q.childrenIn c))

/-- Apply a function to the descendant at a path of names, making children on the way.  Where
the path ends early the children made so far stay, and there is no result. -/
def updateAt {α : Type} (c : Cluster) (f : Query → Query × α) :
    List String → Query → Query × Option α
  | [], q =>
    let (q, a) := f q
    (q, some a)
  | name :: path, q =>
    match Entries.get? name (q.childrenIn c) with
    | none => (q.materialize c, none)
    | some child =>
      let (child, a) := updateAt c f path child
      (mk q.node (some (Entries.insert name child (q.childrenIn c))), a)

end Query
end ResourceQuery
