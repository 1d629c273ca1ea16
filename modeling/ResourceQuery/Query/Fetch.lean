import ResourceQuery.Query.Binding
import ResourceQuery.Query.Selection

/-!
# Fetching the rows of a query

Carrying out a query reads once for the root and then once for every selected child that has
a parent row, from parent to child and in the order of names.  The read of a child covers all
rows of its parent at once: its predicate has an alternative for each of their key maps.

A read can change what its node selects: a collection also selects its keys, and a node on
which nothing is selected selects all its children.  So there is no bound on the depth of a
query that could be read off before it is carried out; the depth to which it is carried out
is given, and a query that goes deeper is left unfinished.
-/

namespace ResourceQuery

/-- A read that was made of the provider. -/
structure Call where
  type : ResourceType
  request : Request
  predicate : Option Predicate
  /-- How many rows came back, unless the read was refused. -/
  rowCount : Option Nat

/-- Why a query was not carried out to its end. -/
inductive Halt where
  | refused (error : ProviderError)
  /-- The query goes deeper than the given depth. -/
  | tooDeep
deriving DecidableEq

/-- What a part of an execution leaves behind. -/
structure Stage (α : Type) where
  state : α
  calls : List Call
  /-- Why it ended early, if it did. -/
  halt : Option Halt

namespace Stage

/-- The stage with another view of the state. -/
def map {α β : Type} (f : α → β) (s : Stage α) : Stage β := ⟨f s.state, s.calls, s.halt⟩

/-- Go on from the state that was reached, unless the execution has ended. -/
def andThen {α : Type} (s : Stage α) (next : α → Stage α) : Stage α :=
  match s.halt with
  | some _ => s
  | none =>
    let t := next s.state
    ⟨t.state, s.calls ++ t.calls, t.halt⟩

section AndThen

variable {α : Type} {s : Stage α} {next : α → Stage α}

theorem andThen_of_some {halt : Halt} (h : s.halt = some halt) : s.andThen next = s := by
  rw [andThen, h]

theorem andThen_of_none (h : s.halt = none) : s.andThen next =
    ⟨(next s.state).state, s.calls ++ (next s.state).calls, (next s.state).halt⟩ := by
  rw [andThen, h]

/-- What holds of a state, and still holds when the execution goes on, holds of the whole. -/
theorem andThen_state {P : α → Prop} (h : P s.state) (hnext : P (next s.state).state) :
    P (s.andThen next).state := by
  cases hs : s.halt with
  | some halt =>
    rw [andThen_of_some hs]
    exact h
  | none =>
    rw [andThen_of_none hs]
    exact hnext

end AndThen

end Stage

namespace Query

/-- Whether any property or child is selected. -/
def selectsNothing (q : Query) : Bool := q.node.propertyIds.isEmpty && q.node.selected.isEmpty

/-- Select the keys of the node's own type and of the types in its key map. -/
def addKeys (c : Cluster) (q : Query) : Query :=
  ((q.node.schema c).keysOf (q.node.type :: q.node.keyMap.keys)).foldl (fun q id => q.addId c id) q

/-- Select every child of a node on which nothing is selected. -/
def expandDefault (c : Cluster) (q : Query) : Query :=
  if q.selectsNothing then
    (q.materialize c).mapNode (·.selectSubResources ((q.childrenIn c).map (·.1)))
  else q

/-- What happens to a node before it is read. -/
def prepare (c : Cluster) (q : Query) : Query :=
  (if q.node.isCollection then q.addKeys c else q).expandDefault c

/-- The answer to the read of a node, with repeated rows as they come. -/
def answer (c : Cluster) (p : Option Predicate) (q : Query) :
    Except ProviderError (List Resource) :=
  c.store.read q.node.type q.node.request p

/-- Remember the rows of a read, each once. -/
def withRows (rows : List Resource) (q : Query) : Query :=
  q.mapNode fun n => { n with rows := Resource.distinct rows }

/-- Remember key maps under which the node is asked. -/
def addKeyMaps (keyMaps : List KeyMap) (q : Query) : Query :=
  q.mapNode fun n => { n with keyMaps := n.keyMaps.insertMany keyMaps }

/-- Prepare a node and read it.  A refused read leaves the rows of the node as they were. -/
def readNode (c : Cluster) (p : Option Predicate) (q : Query) : Stage Query :=
  let q := q.prepare c
  let call := Call.mk q.node.type q.node.request p
  match q.answer c p with
  | .ok rows => ⟨q.withRows rows, [call (some rows.length)], none⟩
  | .error e => ⟨q, [call none], some (.refused e)⟩

/-- What holds of a prepared node, whatever its rows are, holds of the node that was read. -/
theorem readNode_state {c : Cluster} {p : Option Predicate} {q : Query} {P : Query → Prop}
    (hprepare : P (q.prepare c)) (hrows : ∀ rows, P ((q.prepare c).withRows rows)) :
    P (q.readNode c p).state := by
  unfold readNode
  simp only
  split
  · exact hrows _
  · exact hprepare

/-- Carry out the selected children in order, until one of them ends the execution. -/
def fetchSelected (fetch : Query → Stage Query) (selected : SortedSet String) :
    List (String × Query) → Stage (List (String × Query))
  | [] => ⟨[], [], none⟩
  | (name, child) :: rest =>
    if name ∈ selected then
      let s := fetch child
      match s.halt with
      | some halt => ⟨(name, s.state) :: rest, s.calls, some halt⟩
      | none =>
        let t := fetchSelected fetch selected rest
        ⟨(name, s.state) :: t.state, s.calls ++ t.calls, t.halt⟩
    else (fetchSelected fetch selected rest).map ((name, child) :: ·)

/-- Carry out the selected children for some rows of the node. -/
def fetchBeneath (c : Cluster) (fetch : List KeyMap → Query → Stage Query)
    (rows : List Resource) (q : Query) : Stage Query :=
  match q.children with
  | none => ⟨q, [], none⟩
  | some children =>
    (fetchSelected (fetch (q.node.rowKeyMaps c rows)) q.node.selected children).map fun children =>
      mk q.node (some children)

/-- Carry out a child for the key maps of its parent's rows, down to a given depth.  Without a
parent row nothing is read, and the child has no rows. -/
def fetch (c : Cluster) : Nat → List KeyMap → Query → Stage Query
  | _, [], q => ⟨q.withRows [], [], none⟩
  | 0, keyMaps, q => ⟨q.addKeyMaps keyMaps, [], some .tooDeep⟩
  | depth + 1, keyMaps, q =>
    ((q.addKeyMaps keyMaps).readNode c (q.node.batchPredicate c keyMaps)).andThen fun q =>
      q.fetchBeneath c (fetch c depth) q.node.rows

end Query
end ResourceQuery
