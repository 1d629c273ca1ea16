import ResourceQuery.Proofs.Query.Preparation
import ResourceQuery.Proofs.Query.Run

/-!
# What selecting leaves alone on every level

Which rows a node shows is decided by its definition, its bindings and its filter, its basis.
Selecting, preparing and making children leave the basis of every node alone, the nodes that are
not made yet included, if they are taken as they would be made.  So two queries that are made anew
and filtered alike have one basis under every path, whatever is selected of them.
-/

namespace ResourceQuery

/-- What a node stands for beneath its parent: its definition and its bindings. -/
structure Place where
  definition : ResourceDefinition
  keyMap : KeyMap
  baseKeyMap : KeyMap
  exposedAsCollection : Bool
  keyMaps : SortedSet KeyMap

namespace QueryNode

/-- The place of a node. -/
def place (n : QueryNode) : Place :=
  ⟨n.definition, n.keyMap, n.baseKeyMap, n.exposedAsCollection, n.keyMaps⟩

/-- What decides which rows a node shows: its place and its filter. -/
def basis (n : QueryNode) : Place × Option Predicate := (n.place, n.userPredicate)

end QueryNode

namespace Query

variable {α β : Type} {c : Cluster} {view : QueryNode → α} {q q' : Query}

/-! ## Views of a query along its paths -/

/-- The descendant under a path of names, with the children on the way as they are or as they
would be made. -/
def reach? (c : Cluster) : List String → Query → Option Query
  | [], q => some q
  | name :: path, q => (Entries.get? name (q.childrenIn c)).bind (reach? c path)

theorem reach?_cons_eq_some_iff {name : String} {path : List String} {x : Query} :
    q.reach? c (name :: path) = some x ↔
      ∃ child, Entries.get? name (q.childrenIn c) = some child ∧ child.reach? c path = some x :=
  Option.bind_eq_some_iff

/-- What a view shows of the node under each path. -/
def along (c : Cluster) (view : QueryNode → α) (q : Query) (path : List String) : Option α :=
  (q.reach? c path).map fun q => view q.node

theorem along_cons (name : String) (path : List String) : q.along c view (name :: path) =
    ((Entries.get? name (q.childrenIn c)).map (along c view)).bind (· path) := by
  unfold along
  rw [reach?]
  cases Entries.get? name (q.childrenIn c) with
  | none => rfl
  | some child => rfl

/-- A view is the same along all paths if it is the same at the root and along the children. -/
theorem along_congr (hnode : view q'.node = view q.node)
    (hchildren : ∀ name, (Entries.get? name (q'.childrenIn c)).map (along c view) =
      (Entries.get? name (q.childrenIn c)).map (along c view)) :
    q'.along c view = q.along c view := by
  funext path
  cases path with
  | nil => exact congrArg some hnode
  | cons name path => rw [along_cons, along_cons, hchildren name]

theorem view_of_along (h : q'.along c view = q.along c view) : view q'.node = view q.node :=
  Option.some.inj (congrFun h [])

/-- Children of one name show the same if their parents do. -/
theorem along_child (h : q'.along c view = q.along c view) {name : String} {child child' : Query}
    (hchild : Entries.get? name (q.childrenIn c) = some child)
    (hchild' : Entries.get? name (q'.childrenIn c) = some child') :
    child'.along c view = child.along c view := by
  funext path
  have hpath := congrFun h (name :: path)
  rw [along_cons, along_cons, hchild, hchild'] at hpath
  exact hpath

/-- What is seen of a view is the same where the view is. -/
theorem along_comp (f : α → β) (h : q'.along c view = q.along c view) :
    q'.along c (fun n => f (view n)) = q.along c fun n => f (view n) := by
  have hmap (q : Query) (path : List String) :
      q.along c (fun n => f (view n)) path = (q.along c view path).map f := by
    unfold along
    rw [Option.map_map]
    rfl
  funext path
  rw [hmap, hmap, h]

theorem along_prod {view' : QueryNode → β} (h : q'.along c view = q.along c view)
    (h' : q'.along c view' = q.along c view') :
    q'.along c (fun n => (view n, view' n)) = q.along c fun n => (view n, view' n) := by
  funext path
  have hpath := congrFun h path
  have hpath' := congrFun h' path
  unfold along at hpath hpath' ⊢
  cases hq : q.reach? c path with
  | none =>
    rw [hq] at hpath
    rw [Option.map_eq_none_iff.1 hpath]
  | some x =>
    rw [hq] at hpath hpath'
    obtain ⟨x', hx', hview⟩ := Option.map_eq_some_iff.1 hpath
    rw [hx'] at hpath' ⊢
    exact congrArg some (Prod.ext hview (Option.some.inj hpath'))

/-! ## Changes of one node -/

theorem along_of_childrenIn_eq (hnode : view q'.node = view q.node)
    (hchildren : q'.childrenIn c = q.childrenIn c) : q'.along c view = q.along c view :=
  along_congr hnode fun name => by rw [hchildren]

/-- A child can be replaced by one that shows the same. -/
theorem along_insert {node : QueryNode} {name : String} {old new : Query}
    (hnode : view node = view q.node) (hold : Entries.get? name (q.childrenIn c) = some old)
    (hnew : new.along c view = old.along c view) :
    (mk node (some (Entries.insert name new (q.childrenIn c)))).along c view =
      q.along c view := by
  refine along_congr hnode fun name' => ?_
  show (Entries.get? name' (Entries.insert name new (q.childrenIn c))).map _ = _
  rw [Entries.get?_insert]
  split
  · rename_i hname
    rw [hname, hold]
    exact congrArg some hnew
  · rfl

theorem along_updateAt {f : Query → Query × β} (hf : ∀ q, (f q).1.along c view = q.along c view) :
    ∀ (path : List String) (q : Query), (q.updateAt c f path).1.along c view = q.along c view
  | [], q => hf q
  | name :: path, q => by
    unfold updateAt
    split
    · exact along_of_childrenIn_eq rfl rfl
    · rename_i child hchild
      exact along_insert rfl hchild (along_updateAt hf path child)

/-! ## Selecting and preparing -/

/-- Whatever is selected, the basis is the same along all paths. -/
theorem along_selectionClosed (c : Cluster) : SelectionClosed c fun q q' =>
    q'.along c QueryNode.basis = q.along c QueryNode.basis where
  refl q := rfl
  trans first second := second.trans first
  selectAll range q := along_of_childrenIn_eq rfl rfl
  selectLocal range id q := by
    rw [selectLocal_eq]
    exact along_of_childrenIn_eq rfl rfl
  selectChild hold hnew := along_insert rfl hold hnew
  selectChildren q := along_of_childrenIn_eq rfl rfl

theorem along_prepare (c : Cluster) (q : Query) :
    (q.prepare c).along c QueryNode.basis = q.along c QueryNode.basis :=
  (along_selectionClosed c).prepare q

end Query

/-! ## Runs that carry nothing out -/

namespace Operation

/-- Whether the operation carries the query out. -/
def executes : Operation → Bool
  | execute _ => true
  | _ => false

/-- Whether the operation sets a filter. -/
def filters : Operation → Bool
  | setPredicate _ => true
  | _ => false

variable {c : Cluster} {op : Operation}

open Query

theorem along_basis (hexecutes : op.executes = false) (hfilters : op.filters = false) (q : Query) :
    (op.apply c q).1.along c QueryNode.basis = q.along c QueryNode.basis := by
  cases op with
  | addProperty category name range => exact (along_selectionClosed c).addProperty category name q
  | addFields fields => exact (along_selectionClosed c).addFields fields q
  | addLocalProperty id => exact along_of_childrenIn_eq rfl rfl
  | setPredicate p => cases hfilters
  | setPage page => exact along_of_childrenIn_eq rfl rfl
  | materialize => exact along_of_childrenIn_eq rfl rfl
  | execute depth => cases hexecutes

theorem along_place (hexecutes : op.executes = false) (q : Query) :
    (op.apply c q).1.along c QueryNode.place = q.along c QueryNode.place := by
  cases hfilters : op.filters with
  | false => exact along_comp Prod.fst (along_basis hexecutes hfilters q)
  | true =>
    cases op with
    | setPredicate p => exact along_of_childrenIn_eq rfl rfl
    | _ => cases hfilters

end Operation

namespace Query

variable {α : Type} {c : Cluster} {view : QueryNode → α} {q q' start : Query}
  {steps steps' : List (List String × Operation)}

theorem along_run (h : ∀ step ∈ steps, ∀ q, (step.2.apply c q).1.along c view = q.along c view) :
    (q.run c steps).1.along c view = q.along c view := by
  induction steps generalizing q with
  | nil => rfl
  | cons step steps ih =>
    obtain ⟨hstep, hsteps⟩ := List.forall_mem_cons.1 h
    obtain ⟨path, op⟩ := step
    exact (ih hsteps).trans (along_updateAt hstep path q)

/-- Two queries that are used from one start, carried out nowhere and filtered alike, have one
basis under every path. -/
theorem along_basis_run (hsteps : ∀ step ∈ steps, step.2.executes = false)
    (hsteps' : ∀ step ∈ steps', step.2.executes = false)
    (hfilters : (start.run c steps).1.along c QueryNode.userPredicate =
      (start.run c steps').1.along c QueryNode.userPredicate) :
    (start.run c steps).1.along c QueryNode.basis =
      (start.run c steps').1.along c QueryNode.basis := by
  have hplaces {steps : List (List String × Operation)}
      (h : ∀ step ∈ steps, step.2.executes = false) :
      (start.run c steps).1.along c QueryNode.place = start.along c QueryNode.place :=
    along_run fun step hstep => Operation.along_place (h step hstep)
  exact along_prod ((hplaces hsteps).trans (hplaces hsteps').symm) hfilters

end Query
end ResourceQuery
