import ResourceQuery.Query.Basic

/-!
# Binding sub-resources to rows

A row binds the resources beneath it: the key map of its node, with open types bound to the
keys that the row carries and the row's own type bound to the row's own key.  When a node was
asked under several key maps, a row binds beneath each of them that it does not contradict.
-/

namespace ResourceQuery
namespace Cluster

/-- The key that a row carries for a type. -/
def rowKey? (c : Cluster) (row : Resource) (t : ResourceType) : Option String :=
  (c.store.schema row.type).keyOf? t >>= row.key?

/-- Whether a row carries another key for some type than the one a key map binds it to. -/
def conflicts (c : Cluster) (row : Resource) (keyMap : KeyMap) : Bool :=
  keyMap.entries.any fun (t, binding) =>
    match binding.value?, c.rowKey? row t with
    | some expected, some actual => actual != expected
    | _, _ => false

/-- The bindings of a key map that hold beneath a row: bound types stay bound, open types are
bound to the row's keys or left out. -/
def inherited (c : Cluster) (row : Resource) (keyMap : KeyMap) : KeyMap :=
  .ofList (keyMap.entries.filterMap fun (t, binding) =>
    (binding.value? <|> c.rowKey? row t).map fun key => (t, .bound key))

/-- The key map beneath a row: what is inherited, and the row's own key. -/
def rowKeyMap (c : Cluster) (row : Resource) (keyMap : KeyMap) : KeyMap :=
  match c.rowKey? row row.type with
  | some key => (c.inherited row keyMap).insert row.type (.bound key)
  | none => c.inherited row keyMap

end Cluster

namespace QueryNode

/-- The key maps beneath rows, under every key map of the node that a row does not contradict;
each map once, in the order of the rows. -/
def rowKeyMaps (n : QueryNode) (c : Cluster) (rows : List Resource) : List KeyMap :=
  (rows.flatMap fun row =>
    (n.keyMaps.toList.filter fun keyMap => !c.conflicts row keyMap).map (c.rowKeyMap row)).eraseDups

/-- The predicate of one read for several key maps: one alternative for each, without
repetitions. -/
def batchPredicate (n : QueryNode) (c : Cluster) (keyMaps : List KeyMap) : Option Predicate :=
  Predicate.disjunction (Predicate.distinct (keyMaps.filterMap (n.predicateFor c)))

/-- The bindings of the node beneath a row whose key map is given. -/
def bindingsUnder (n : QueryNode) (rowKeys : KeyMap) : KeyMap := n.baseKeyMap.extend rowKeys

/-- The rows of the node that belong under given bindings. -/
def share (n : QueryNode) (c : Cluster) (keyMap : KeyMap) : List Resource :=
  narrow n.rows (n.predicateFor c keyMap)

end QueryNode
end ResourceQuery
