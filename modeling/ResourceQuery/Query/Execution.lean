import ResourceQuery.Query.Fetch
import ResourceQuery.ResultTree.Render

/-!
# Executing a query

After the reads, the rows of every child are dealt out to the rows of its parent: beneath a
parent row stand those rows of the child that satisfy the child's predicate under the key map
of the parent row.  The dealing leaves the key map of the last parent row behind in the child;
`settle` says so without building the tree again.
-/

namespace ResourceQuery
namespace Query

/-! ## The result tree -/

/-- Whether a node under given bindings shows its rows as a collection. -/
def showsCollection (node : QueryNode) (keyMap : KeyMap) : Bool :=
  keyMap.isUnbound node.type && node.exposedAsCollection

/-- The properties of a tree beneath a row. -/
def nestedProperties : SortedMap String String :=
  SortedMap.insert ∅ ResultTree.collectionProperty "false"

/-- The properties of the outermost tree. -/
def rootProperties (isCollection : Bool) : SortedMap String String :=
  if isCollection then SortedMap.insert ∅ ResultTree.collectionProperty "true" else ∅

mutual

/-- Rows of a query with what belongs beneath them, under given bindings. -/
def resultRows (c : Cluster) (keyMap : KeyMap) (rows : List Resource) : Query → List ResultRow
  | mk _ none => rows.map fun row => .mk row []
  | mk node (some children) =>
    rows.map fun row =>
      .mk row (resultsBeneath c node.selected (c.rowKeyMap row keyMap) children)

/-- The results of the selected children beneath a row whose key map is given. -/
def resultsBeneath (c : Cluster) (selected : SortedSet String) (rowKeys : KeyMap) :
    List (String × Query) → List (String × ResultTree)
  | [] => []
  | (name, child) :: rest =>
    let results := resultsBeneath c selected rowKeys rest
    if name ∈ selected then
      let keyMap := child.node.bindingsUnder rowKeys
      let rows := child.resultRows c keyMap (child.node.share c keyMap)
      (name, .mk (showsCollection child.node keyMap) nestedProperties rows) :: results
    else results

end

/-- The result tree of a query for some of its rows. -/
def resultTree (c : Cluster) (rows : List Resource) (q : Query) : ResultTree :=
  let isCollection := showsCollection q.node q.node.keyMap
  .mk isCollection (rootProperties isCollection) (q.resultRows c q.node.keyMap rows)

/-! ## The bindings that are left behind -/

/-- A visit of a node: its bindings at the time, and the rows that were shown. -/
structure Visit where
  keyMap : KeyMap
  rows : List Resource

/-- The visits of a child that the visits of its parent entail: one for every row. -/
def visitsBeneath (c : Cluster) (child : QueryNode) (visits : List Visit) : List Visit :=
  visits.flatMap fun v => v.rows.map fun row =>
    let keyMap := child.bindingsUnder (c.rowKeyMap row v.keyMap)
    ⟨keyMap, child.share c keyMap⟩

/-- The node after some visits: it keeps the bindings of the last one. -/
def lastBindings (node : QueryNode) (visits : List Visit) : QueryNode :=
  match visits.getLast? with
  | some v => { node with keyMap := v.keyMap }
  | none => node

mutual

/-- The query after its root was visited in a number of ways. -/
def settle (c : Cluster) (visits : List Visit) : Query → Query
  | mk node none => mk (lastBindings node visits) none
  | mk node (some children) =>
    mk (lastBindings node visits) (some (settleChildren c node.selected visits children))

/-- The children after their parent was visited. -/
def settleChildren (c : Cluster) (selected : SortedSet String) (visits : List Visit) :
    List (String × Query) → List (String × Query)
  | [] => []
  | (name, child) :: rest =>
    let rest := settleChildren c selected visits rest
    if name ∈ selected then
      (name, child.settle c (visitsBeneath c child.node visits)) :: rest
    else (name, child) :: rest

end

/-! ## Execution -/

/-- What an execution leaves behind. -/
structure Execution where
  query : Query
  /-- The reads that were made, in order. -/
  calls : List Call
  /-- The result, or why there is none. -/
  outcome : Except Halt ExecutionResult

/-- The rows of the root that are shown, and their place when a page is asked for. -/
def shownRows (c : Cluster) (q : Query) : List Resource × Option PageInfo :=
  match q.node.page with
  | some page =>
    let cut := narrowToPage q.node.rows (q.node.predicate c) page
    (cut.rows, some ⟨cut.offset, cut.total⟩)
  | none => (narrow q.node.rows (q.node.predicate c), none)

/-- Read the root, and remember its bindings when the read succeeds. -/
def readRoot (c : Cluster) (q : Query) : Stage Query :=
  (q.readNode c (q.node.predicate c)).andThen fun q =>
    ⟨q.addKeyMaps [q.node.keyMap], [], none⟩

/-- Carry out a query down to a given depth: the reads, and the result tree. -/
def execute (c : Cluster) (depth : Nat) (q : Query) : Execution :=
  let s := (q.readRoot c).andThen fun q => q.fetchBeneath c (fetch c depth) (q.shownRows c).1
  match s.halt with
  | some halt => ⟨s.state, s.calls, .error halt⟩
  | none =>
    let (rows, page) := s.state.shownRows c
    ⟨s.state.settle c [⟨s.state.node.keyMap, rows⟩], s.calls,
      .ok ⟨s.state.resultTree c rows, page⟩⟩

end Query
end ResourceQuery
