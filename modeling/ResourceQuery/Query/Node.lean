import ResourceQuery.Catalog
import ResourceQuery.Store.Read

/-!
# The nodes of a query

A query is a tree of nodes.  A node asks for the resources of one type; its key map says to
which instances the related types are bound.  This file holds what a node remembers and what
follows from it: the predicate that its key map and the user's filter amount to, and the
request that its selection amounts to.
-/

namespace ResourceQuery

/-- What queries are asked of: the definitions of the types and the stored resources. -/
structure Cluster where
  catalog : Catalog
  store : Store

/-- What a node of a query remembers. -/
structure QueryNode where
  definition : ResourceDefinition
  keyMap : KeyMap
  /-- The bindings with which the node was made. -/
  baseKeyMap : KeyMap
  /-- Whether the parent exposes the node under a plural name. -/
  exposedAsCollection : Bool
  propertyIds : SortedSet PropertyId
  timeRanges : SortedMap PropertyId TimeRange
  /-- The time range of all other properties. -/
  defaultRange : Option TimeRange
  allProperties : Bool
  userPredicate : Option Predicate
  page : Option PageRequest
  selected : SortedSet String
  /-- Every key map under which the node was asked. -/
  keyMaps : SortedSet KeyMap
  /-- The rows that the last read gave. -/
  rows : List Resource

namespace QueryNode

/-- A node that has not been told anything. -/
def fresh (definition : ResourceDefinition) (keyMap : KeyMap) : QueryNode where
  definition := definition
  keyMap := keyMap
  baseKeyMap := keyMap
  exposedAsCollection := true
  propertyIds := ∅
  timeRanges := ∅
  defaultRange := none
  allProperties := false
  userPredicate := none
  page := none
  selected := ∅
  keyMaps := ∅
  rows := []

/-- The type that is asked for. -/
def type (n : QueryNode) : ResourceType := n.definition.type

/-- The schema of the type. -/
def schema (n : QueryNode) (c : Cluster) : Schema := c.store.schema n.type

/-- Whether the current bindings leave the node's own type open. -/
def isCollection (n : QueryNode) : Bool := n.keyMap.isUnbound n.type

/-- Select a property. -/
def addProperty (n : QueryNode) (id : PropertyId) : QueryNode :=
  { n with propertyIds := n.propertyIds.insert id }

/-- Select several properties. -/
def addProperties (n : QueryNode) (ids : List PropertyId) : QueryNode :=
  { n with propertyIds := n.propertyIds.insertMany ids }

/-- Give a property a time range, if there is one to give. -/
def setRange (n : QueryNode) (id : PropertyId) (range : Option TimeRange) : QueryNode :=
  match range with
  | some r => { n with timeRanges := n.timeRanges.insert id r }
  | none => n

/-- A range changes nothing but the range of its property. -/
theorem setRange_eq (n : QueryNode) (id : PropertyId) (range : Option TimeRange) :
    n.setRange id range =
      { n with timeRanges := range.elim n.timeRanges (n.timeRanges.insert id) } := by
  cases range with
  | none => rfl
  | some r => rfl

/-- Select a sub-resource by name. -/
def selectSubResource (n : QueryNode) (name : String) : QueryNode :=
  { n with selected := n.selected.insert name }

/-- Select several sub-resources by name. -/
def selectSubResources (n : QueryNode) (names : List String) : QueryNode :=
  { n with selected := n.selected.insertMany names }

/-- The time range of a property: its own, or the one of all other properties. -/
def rangeOf? (n : QueryNode) (id : PropertyId) : Option TimeRange :=
  n.timeRanges.get? id <|> n.defaultRange

/-- The key properties of the types in the key map. -/
def keyIds (n : QueryNode) (c : Cluster) : List PropertyId := (n.schema c).keysOf n.keyMap.keys

/-- The key properties that a bound key map fixes, with their values, each pair once. -/
def boundKeys (n : QueryNode) (c : Cluster) (keyMap : KeyMap) : List (PropertyId × String) :=
  (keyMap.entries.filterMap fun (t, binding) => do
    return (← (n.schema c).keyOf? t, ← binding.value?)).eraseDups

/-- The predicate that a key map amounts to. -/
def keyPredicate (n : QueryNode) (c : Cluster) (keyMap : KeyMap) : Option Predicate :=
  Predicate.conjunction ((n.boundKeys c keyMap).map fun (id, key) => .equals id (.string key))

/-- The predicate that the user's filter and a key map amount to. -/
def predicateFor (n : QueryNode) (c : Cluster) (keyMap : KeyMap) : Option Predicate :=
  match n.keyPredicate c keyMap, n.userPredicate with
  | none, user => user
  | some keys, none => some keys
  | some keys, some user => some (.all [user, keys])

/-- The predicate under the current bindings. -/
def predicate (n : QueryNode) (c : Cluster) : Option Predicate := n.predicateFor c n.keyMap

/-- The request that the selection amounts to. -/
def request (n : QueryNode) : Request where
  propertyIds := if n.allProperties then ∅ else n.propertyIds
  timeRanges := .ofList (n.propertyIds.toList.filterMap fun id => (n.rangeOf? id).map (id, ·))

end QueryNode
end ResourceQuery
