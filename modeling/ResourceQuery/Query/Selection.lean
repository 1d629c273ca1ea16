import ResourceQuery.Query.Basic

/-!
# Selecting properties

A selection is a path.  While its first segment is the name of a child, the path is followed
into that child, and the child is selected on the way; the node then also selects the key
properties of the types in its key map, so that its rows can be told apart beneath.  Where
the path leaves the children, the rest of it is a property of the node that was reached.  The
wildcard selects every property and every child of a node; behind a category that is no child
it stands for the category.
-/

namespace ResourceQuery
namespace Query

/-- The text of a path of segments. -/
def pathText (segments : List String) : String := String.intercalate "/" segments

/-- Select every property and every child. -/
def selectAll (c : Cluster) (range : Option TimeRange) (q : Query) : Query :=
  (q.materialize c).mapNode fun n =>
    { n.selectSubResources ((q.childrenIn c).map (·.1)) with
      allProperties := true
      defaultRange := range <|> n.defaultRange }

/-- Select a property of the node itself. -/
def selectLocal (c : Cluster) (range : Option TimeRange) (id : PropertyId) (q : Query) : Query :=
  (q.materialize c).mapNode fun n => (n.setRange id range).addProperty id

/-- With its range or without, a property becomes one of those that the node selects. -/
theorem selectLocal_eq (c : Cluster) (range : Option TimeRange) (id : PropertyId) (q : Query) :
    q.selectLocal c range id = (q.materialize c).mapNode fun n =>
      { n with
        timeRanges := range.elim n.timeRanges (n.timeRanges.insert id)
        propertyIds := n.propertyIds.insert id } := by
  unfold selectLocal
  simp only [QueryNode.setRange_eq]
  rfl

/-- Replace a child and select it together with the keys that bind it. -/
def selectChild (c : Cluster) (q : Query) (name : String) (child : Query) : Query :=
  mk ((q.node.selectSubResource name).addProperties (q.node.keyIds c))
    (some (Entries.insert name child (q.childrenIn c)))

/-- Select what a path leads to: a child as it is, or a property or category. -/
def selectPath (c : Cluster) (range : Option TimeRange) : List String → Query → Query
  | [], q => q
  | head :: rest, q =>
    match Entries.get? head (q.childrenIn c) with
    | some child => q.selectChild c head (selectPath c range rest child)
    | none => q.selectLocal c range ⟨pathText (head :: rest)⟩

/-- Select a name beneath a category that is given as a path. -/
def selectNamed (c : Cluster) (range : Option TimeRange) (name : String) :
    List String → Query → Query
  | [], q =>
    if name = PropertyId.wildcard then q.selectAll c range
    else selectPath c range (PropertyId.segments name) q
  | head :: rest, q =>
    match Entries.get? head (q.childrenIn c) with
    | some child => q.selectChild c head (selectNamed c range name rest child)
    | none =>
      let category := pathText (head :: rest)
      if name = PropertyId.wildcard then q.selectLocal c range ⟨category⟩
      else q.selectLocal c range (.encode (some category) name)

/-- Select a category, a name, or a name in a category. -/
def addProperty (c : Cluster) (category name : Option String) (range : Option TimeRange)
    (q : Query) : Query :=
  match category.map PropertyId.segments, name with
  | none, none => q
  | some path, none => selectPath c range path q
  | none, some name => selectNamed c range name [] q
  | some path, some name => selectNamed c range name path q

/-- Select what a property id names. -/
def addId (c : Cluster) (id : PropertyId) (q : Query) : Query :=
  q.addProperty c id.category (some id.name) none

/-- Select a property of the root node, whatever its children are called. -/
def addLocalProperty (id : PropertyId) (q : Query) : Query := q.mapNode (·.addProperty id)

/-- Select the fields of a list; a list that is not well-formed selects nothing. -/
def addFields (c : Cluster) (fields : String) (q : Query) : Except QueryError Query := do
  let selections ← FieldList.ofText fields
  return selections.foldl (fun q f => q.addProperty c f.category (some f.name) f.range) q

/-- Set or clear the user's filter. -/
def setPredicate (p : Option Predicate) (q : Query) : Query :=
  q.mapNode fun n => { n with userPredicate := p }

/-- Set or clear the page that is asked for. -/
def setPage (p : Option PageRequest) (q : Query) : Query := q.mapNode fun n => { n with page := p }

end Query
end ResourceQuery
