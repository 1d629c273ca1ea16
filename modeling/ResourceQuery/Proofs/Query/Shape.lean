import ResourceQuery.Proofs.Query.Paging
import ResourceQuery.Proofs.Query.Walk

/-!
# The shape of a result

A child that is selected is made, on every level and whatever was done with the query: the small
changes of which every operation consists keep this.  The building of a result tree passes over
selected names without a child, so none is ever passed over, and beneath each row stands exactly
one tree for each selected child.
-/

namespace ResourceQuery
namespace Query

variable {c : Cluster} {q q' : Query}

/-- A query that is made anew is the root alone. -/
theorem eq_leaf_of_new {type : ResourceType} {keyMap : KeyMap}
    (h : Query.new c type keyMap = .ok q) :
    ∃ definition, c.catalog.definition? type = some definition ∧
      q = leaf (.fresh definition keyMap) := by
  unfold Query.new at h
  split at h
  · rename_i definition hdefinition
    exact ⟨definition, hdefinition, (Except.ok.inj h).symm⟩
  · cases h

theorem Ordered.new {type : ResourceType} {keyMap : KeyMap}
    (h : Query.new c type keyMap = .ok q) : Ordered q := by
  obtain ⟨definition, -, rfl⟩ := eq_leaf_of_new h
  exact .leaf _

/-! ## Selected children are made -/

/-- Every child that is selected is made, on every level. -/
inductive SelectsMade : Query → Prop where
  | intro {q : Query} (made : ∀ name ∈ q.node.selected, name ∈ (q.children.getD []).map (·.1))
      (beneath : ∀ e ∈ q.children.getD [], SelectsMade e.2) : SelectsMade q

namespace SelectsMade

theorem made (h : SelectsMade q) : ∀ name ∈ q.node.selected,
    name ∈ (q.children.getD []).map (·.1) := by
  cases h with
  | intro made _ => exact made

theorem beneath (h : SelectsMade q) {e : String × Query} (he : e ∈ q.children.getD []) :
    SelectsMade e.2 := by
  cases h with
  | intro _ beneath => exact beneath e he

/-- A node on which nothing is selected needs no children. -/
theorem leaf {node : QueryNode} (h : node.selected = ∅) : SelectsMade (leaf node) := by
  refine .intro (fun name hname => ?_) fun e he => by cases he
  rw [show (Query.leaf node).node.selected = ∅ from h] at hname
  exact absurd hname (SortedSet.not_mem_empty name)

theorem new {type : ResourceType} {keyMap : KeyMap} (h : Query.new c type keyMap = .ok q) :
    SelectsMade q := by
  obtain ⟨definition, -, rfl⟩ := eq_leaf_of_new h
  exact leaf rfl

theorem materialize (h : SelectsMade q) : SelectsMade (q.materialize c) := by
  obtain ⟨node, _ | children⟩ := q
  · refine .intro (fun name hname => ?_) fun e he => ?_
    · exact absurd (h.made name hname) (by simp [children])
    · obtain ⟨sub, -, hsub⟩ := List.mem_filterMap.1 (Entries.mem_of_mem_ofList he)
      obtain ⟨d, -, hchild⟩ := Option.bind_eq_some_iff.1 hsub
      obtain rfl := Option.some.inj hchild
      exact leaf rfl
  · exact h

theorem of_changes (hchanges : Changes c q q') (h : SelectsMade q) : SelectsMade q' := by
  induction hchanges with
  | refl q => exact h
  | trans _ _ ih ih' => exact ih' (ih h)
  | node _ hselected =>
    refine .intro (fun name hname => ?_) fun e he => h.beneath he
    rcases hselected name hname with hbefore | hmade
    · exact h.made name hbefore
    · exact hmade
  | materialize q => exact h.materialize
  | @insert node children name old new hget _ ih =>
    refine .intro (fun name' hname' => ?_) fun e he => ?_
    · -- An insertion loses no name.
      obtain ⟨e, he, rfl⟩ := List.mem_map.1 (h.made name' hname')
      have hkept : Entries.get? e.1 (Entries.insert name new children) ≠ none := by
        rw [Entries.get?_insert]
        split
        · exact Option.some_ne_none _
        · exact fun hnone => Entries.get?_eq_none_iff.1 hnone e he rfl
      obtain ⟨child, hchild⟩ := Option.ne_none_iff_exists'.1 hkept
      exact List.mem_map.2 ⟨(e.1, child), Entries.mem_of_get? hchild, rfl⟩
    · rcases Entries.mem_insert he with rfl | hmem
      · exact ih (h.beneath (Entries.mem_of_get? hget))
      · exact h.beneath hmem
  | @replace node before after name old new _ ih =>
    refine .intro (fun name' hname' => ?_) fun e he => ?_
    · have hnames : (before ++ (name, new) :: after).map (·.1) =
          (before ++ (name, old) :: after).map (·.1) := by simp
      show name' ∈ (before ++ (name, new) :: after).map (·.1)
      rw [hnames]
      exact h.made name' hname'
    · rcases mem_of_mem_replace he with rfl | hmem
      · exact ih (h.beneath (e := (name, old)) List.mem_append_cons_self)
      · exact h.beneath hmem

end SelectsMade

/-- The names of the selected children are the selected names, in order. -/
theorem selectedChildren_names (hmade : SelectsMade q) (hordered : Ordered q) :
    q.selectedChildren.map (·.1) = q.node.selected.toList := by
  have hsorted : (q.selectedChildren.map (·.1)).Pairwise fun x y => compare x y = .lt :=
    List.pairwise_map.2 (hordered.sorted.sublist List.filter_sublist)
  have hmem : ∀ name, name ∈ q.selectedChildren.map (·.1) ↔ name ∈ q.node.selected := by
    intro name
    constructor
    · intro hname
      obtain ⟨e, he, rfl⟩ := List.mem_map.1 hname
      exact (mem_selectedChildren.1 he).2
    · intro hname
      obtain ⟨e, he, rfl⟩ := List.mem_map.1 (hmade.made name hname)
      exact List.mem_map_of_mem (mem_selectedChildren.2 ⟨he, hname⟩)
  have hsets : (⟨q.selectedChildren.map (·.1), hsorted⟩ : SortedSet String) = q.node.selected :=
    SortedSet.ext_mem hmem
  exact congrArg SortedSet.toList hsets

/-! ## The rows of a result -/

/-- Rows of a result have the shape of a query: beneath each of them stands one tree for every
selected child and no other, which is marked as nested and has the shape of the child. -/
inductive Shaped : Query → List ResultRow → Prop where
  | intro {q : Query} {rows : List ResultRow}
      (names : ∀ r ∈ rows, r.subResources.map (·.1) = q.node.selected.toList)
      (made : ∀ r ∈ rows, ∀ e ∈ r.subResources, Entries.get? e.1 (q.children.getD []) ≠ none)
      (marked : ∀ r ∈ rows, ∀ e ∈ r.subResources,
        e.2.property? ResultTree.collectionProperty = some "false")
      (beneath : ∀ r ∈ rows, ∀ e ∈ r.subResources, ∀ child,
        Entries.get? e.1 (q.children.getD []) = some child → Shaped child e.2.rows) :
      Shaped q rows

/-- The rows that a query is shown with have its shape. -/
theorem shaped_resultRows (hmade : SelectsMade q) : Ordered q →
    ∀ keyMap rows, Shaped q (q.resultRows c keyMap rows) := by
  induction hmade with
  | @intro q made beneath ih =>
    intro hordered keyMap rows
    have hmade : SelectsMade q := .intro made beneath
    -- Every tree beneath a row is that of the child under the same name.
    have htree : ∀ r ∈ q.resultRows c keyMap rows, ∀ e ∈ r.subResources,
        ∃ child keyMap', (e.1, child) ∈ q.children.getD [] ∧
          e.2 = child.nestedTree c keyMap' := by
      intro r hr e he
      rw [resultRows_eq] at hr
      obtain ⟨row, -, rfl⟩ := List.mem_map.1 hr
      obtain ⟨e', he', rfl⟩ := List.mem_map.1 he
      exact ⟨e'.2, _, (mem_selectedChildren.1 he').1, rfl⟩
    refine .intro (fun r hr => ?_) (fun r hr e he => ?_) (fun r hr e he => ?_)
      fun r hr e he child hchild => ?_
    · rw [resultRows_eq] at hr
      obtain ⟨row, -, rfl⟩ := List.mem_map.1 hr
      have hnames := selectedChildren_names hmade hordered
      simp only [ResultRow.subResources, List.map_map]
      exact hnames
    · obtain ⟨child, -, hmem, -⟩ := htree r hr e he
      rw [(Entries.get?_eq_some_iff hordered.sorted).2 hmem]
      exact Option.some_ne_none child
    · obtain ⟨child, keyMap', -, he⟩ := htree r hr e he
      rw [he]
      rfl
    · obtain ⟨child', keyMap', hmem, he⟩ := htree r hr e he
      have hget := (Entries.get?_eq_some_iff hordered.sorted).2 hmem
      obtain rfl : child' = child := Option.some.inj (hget.symm.trans hchild)
      rw [he]
      exact ih (e.1, child') hmem (hordered.beneath hmem) keyMap' _

mutual

/-- The rows of a result do not depend on the bindings that are left behind. -/
theorem resultRows_settle (c : Cluster) : ∀ (visits : List Visit) (q : Query) (keyMap : KeyMap)
    (rows : List Resource), (q.settle c visits).resultRows c keyMap rows = q.resultRows c keyMap rows
  | visits, mk node none, keyMap, rows => by
    obtain ⟨keyMap', h⟩ := lastBindings_eq node visits
    rw [settle, h]
    rfl
  | visits, mk node (some children), keyMap, rows => by
    obtain ⟨keyMap', h⟩ := lastBindings_eq node visits
    rw [settle, h, resultRows, resultRows]
    refine List.map_congr_left fun row _ => congrArg (ResultRow.mk row) ?_
    exact resultsBeneath_settleChildren c visits node.selected _ children

theorem resultsBeneath_settleChildren (c : Cluster) : ∀ (visits : List Visit)
    (selected : SortedSet String) (rowKeys : KeyMap) (children : List (String × Query)),
    resultsBeneath c selected rowKeys (settleChildren c selected visits children) =
      resultsBeneath c selected rowKeys children
  | _, _, _, [] => rfl
  | visits, selected, rowKeys, (name, child) :: rest => by
    have hrest := resultsBeneath_settleChildren c visits selected rowKeys rest
    by_cases hname : name ∈ selected
    · obtain ⟨keyMap, hnode⟩ := child.settle_node_eq c (visitsBeneath c child.node visits)
      have hchild := resultRows_settle c (visitsBeneath c child.node visits) child
      have hbindings : ({ child.node with keyMap } : QueryNode).bindingsUnder rowKeys =
          child.node.bindingsUnder rowKeys := rfl
      have hshare (m : KeyMap) : ({ child.node with keyMap } : QueryNode).share c m =
          child.node.share c m := rfl
      have hshows (m : KeyMap) : showsCollection { child.node with keyMap } m =
          showsCollection child.node m := rfl
      simp only [settleChildren, resultsBeneath, if_pos hname, hrest, hnode, hbindings, hshare,
        hshows, hchild]
    · simp only [settleChildren, resultsBeneath, hname, if_false, hrest]

end

/-- The rows of a result are those that the query which is left behind is shown with. -/
theorem rows_eq_resultRows {depth : Nat} {result : ExecutionResult}
    (h : (q.execute c depth).outcome = .ok result) :
    ∃ keyMap rows, result.tree.rows = (q.execute c depth).query.resultRows c keyMap rows := by
  rw [execute_eq] at h ⊢
  split at h
  · cases h
  · rename_i hdone
    obtain rfl := Except.ok.inj h
    simp only
    exact ⟨_, _, (resultRows_settle c _ _ _ _).symm⟩

/-- A result has the shape of the query that its execution leaves behind. -/
theorem shaped_of_ok {depth : Nat} {result : ExecutionResult}
    (h : (q.execute c depth).outcome = .ok result)
    (hmade : SelectsMade (q.execute c depth).query) (hordered : Ordered (q.execute c depth).query) :
    Shaped (q.execute c depth).query result.tree.rows := by
  obtain ⟨keyMap, rows, hrows⟩ := rows_eq_resultRows h
  rw [hrows]
  exact shaped_resultRows hmade hordered keyMap rows

/-! ## Descendants -/

/-- The descendant under a path of names, if it is made. -/
def descendant? : List String → Query → Option Query
  | [], q => some q
  | name :: path, q => (Entries.get? name (q.children.getD [])).bind (descendant? path)

theorem SelectsMade.descendant (h : SelectsMade q) {path : List String}
    (hpath : q.descendant? path = some q') : SelectsMade q' := by
  induction path generalizing q with
  | nil => exact Option.some.inj hpath ▸ h
  | cons name path ih =>
    obtain ⟨child, hchild, hpath⟩ := Option.bind_eq_some_iff.1 hpath
    exact ih (h.beneath (Entries.mem_of_get? hchild)) hpath

theorem Ordered.descendant (h : Ordered q) {path : List String}
    (hpath : q.descendant? path = some q') : Ordered q' := by
  induction path generalizing q with
  | nil => exact Option.some.inj hpath ▸ h
  | cons name path ih =>
    obtain ⟨child, hchild, hpath⟩ := Option.bind_eq_some_iff.1 hpath
    exact ih (h.beneath (Entries.mem_of_get? hchild)) hpath

/-- What is done at the end of a path is done to the descendant that stands there afterwards. -/
theorem descendant?_updateAt {α : Type} {f : Query → Query × α} {a : α} :
    ∀ {path : List String} {q : Query}, (q.updateAt c f path).2 = some a →
      ∃ q', (f q').2 = a ∧ (q.updateAt c f path).1.descendant? path = some (f q').1
  | [], q, h => ⟨q, Option.some.inj h, rfl⟩
  | name :: path, q, h => by
    unfold updateAt at h ⊢
    split at h
    · cases h
    · rename_i child hchild
      obtain ⟨q', hresult, hstands⟩ := descendant?_updateAt h
      refine ⟨q', hresult, ?_⟩
      simp only [hchild, descendant?, Query.children, Option.getD_some, Entries.get?_insert,
        if_true, Option.bind_some]
      exact hstands

/-! ## The root -/

/-- The root asks for the same type under the same bindings, and is exposed as before. -/
structure SameRoot (q q' : Query) : Prop where
  definition : q'.node.definition = q.node.definition
  keyMap : q'.node.keyMap = q.node.keyMap
  exposed : q'.node.exposedAsCollection = q.node.exposedAsCollection

namespace SameRoot

variable {q'' : Query}

theorem of_node_eq (h : q'.node = q.node) : SameRoot q q' :=
  ⟨congrArg QueryNode.definition h, congrArg QueryNode.keyMap h,
    congrArg QueryNode.exposedAsCollection h⟩

theorem refl (q : Query) : SameRoot q q := ⟨rfl, rfl, rfl⟩

theorem trans (h : SameRoot q q') (h' : SameRoot q' q'') : SameRoot q q'' :=
  ⟨h'.definition.trans h.definition, h'.keyMap.trans h.keyMap, h'.exposed.trans h.exposed⟩

theorem selectionClosed (c : Cluster) : SelectionClosed c SameRoot where
  refl := refl
  trans first second := first.trans second
  selectAll range q := ⟨rfl, rfl, rfl⟩
  selectLocal range id q := by
    rw [selectLocal_eq]
    exact ⟨rfl, rfl, rfl⟩
  selectChild _ _ := ⟨rfl, rfl, rfl⟩
  selectChildren q := ⟨rfl, rfl, rfl⟩

theorem andThen {s : Stage Query} {next : Query → Stage Query} (h : SameRoot q s.state)
    (hnext : SameRoot s.state (next s.state).state) : SameRoot q (s.andThen next).state :=
  Stage.andThen_state h (h.trans hnext)

theorem reads (c : Cluster) (depth : Nat) (q : Query) : SameRoot q (q.reads c depth).state := by
  have hprepare : SameRoot q (q.prepare c) := (selectionClosed c).prepare q
  have hread : SameRoot q (q.readNode c (q.node.predicate c)).state :=
    readNode_state hprepare fun _ => hprepare.trans ⟨rfl, rfl, rfl⟩
  have hroot : SameRoot q (q.readRoot c).state := andThen hread ⟨rfl, rfl, rfl⟩
  refine andThen hroot ?_
  -- Fetching the children leaves the node alone.
  obtain ⟨node, _ | children⟩ := (q.readRoot c).state
  · exact refl _
  · exact ⟨rfl, rfl, rfl⟩

theorem execute (c : Cluster) (depth : Nat) (q : Query) :
    SameRoot q (q.execute c depth).query := by
  have hreads := reads c depth q
  rw [execute_eq]
  split
  · exact hreads
  · -- The only visit of the root has the root's own bindings.
    exact hreads.trans (of_node_eq (settle_node c _ _))

theorem apply (c : Cluster) (op : Operation) (q : Query) : SameRoot q (op.apply c q).1 := by
  cases op with
  | addProperty category name range => exact (selectionClosed c).addProperty category name q
  | addFields fields => exact (selectionClosed c).addFields fields q
  | addLocalProperty id => exact ⟨rfl, rfl, rfl⟩
  | setPredicate p => exact ⟨rfl, rfl, rfl⟩
  | setPage page => exact ⟨rfl, rfl, rfl⟩
  | materialize => exact ⟨rfl, rfl, rfl⟩
  | execute depth => exact execute c depth q

theorem run (c : Cluster) (steps : List (List String × Operation)) (q : Query) :
    SameRoot q (q.run c steps).1 := by
  induction steps generalizing q with
  | nil => exact refl q
  | cons step steps ih =>
    obtain ⟨path, op⟩ := step
    refine trans ?_ (ih _)
    cases path with
    | nil => exact apply c op q
    | cons name path =>
      unfold updateAt
      split
      · exact ⟨rfl, rfl, rfl⟩
      · exact ⟨rfl, rfl, rfl⟩

end SameRoot

/-- The outermost tree is marked as a collection when the bindings of the root leave its own type
open and it is exposed as a collection. -/
theorem property?_of_ok {depth : Nat} {result : ExecutionResult}
    (h : (q.execute c depth).outcome = .ok result) :
    result.tree.property? ResultTree.collectionProperty = some "true" ↔
      q.node.isCollection = true ∧ q.node.exposedAsCollection = true := by
  have hroot := SameRoot.reads c depth q
  have hshows : showsCollection (q.reads c depth).state.node (q.reads c depth).state.node.keyMap =
      (q.node.isCollection && q.node.exposedAsCollection) := by
    rw [showsCollection, hroot.keyMap, hroot.exposed, QueryNode.type, hroot.definition]
    rfl
  rw [execute_eq] at h
  split at h
  · cases h
  · obtain rfl := Except.ok.inj h
    simp only [resultTree, ResultTree.property?, ResultTree.properties, hshows, ← Bool.and_eq_true]
    cases q.node.isCollection && q.node.exposedAsCollection with
    | false => simp [rootProperties]
    | true => simp [rootProperties]

/-! ## Runs -/

/-- Whatever is done with a query that is made anew: the selected children are made; the result of
every execution of one of its nodes has, beneath each row and on every level, one tree for each
selected child and no other, all marked as nested; and the outermost tree of the query itself is
marked as a collection exactly when its own key is open. -/
theorem run_selectsMade_shaped {type : ResourceType} {keyMap : KeyMap} {start : Query}
    (hnew : Query.new c type keyMap = .ok start) (steps : List (List String × Operation)) :
    SelectsMade (start.run c steps).1 ∧
      (∀ path depth q' result, (start.run c steps).1.updateAt c
          ((Operation.execute depth).apply c) path = (q', some (some result)) →
        ∃ executed, q'.descendant? path = some executed ∧ Shaped executed result.tree.rows) ∧
      ∀ depth result, ((start.run c steps).1.execute c depth).outcome = .ok result →
        (result.tree.property? ResultTree.collectionProperty = some "true" ↔
          keyMap.isUnbound start.node.type = true) := by
  have hordered : Ordered start := .new hnew
  have hroot : start.node.keyMap = keyMap ∧ start.node.exposedAsCollection = true := by
    obtain ⟨definition, -, rfl⟩ := eq_leaf_of_new hnew
    exact ⟨rfl, rfl⟩
  obtain ⟨hkeyMap, hexposed⟩ := hroot
  have hrun : Changes c start (start.run c steps).1 := .run steps
  have hmade : SelectsMade (start.run c steps).1 := (SelectsMade.new hnew).of_changes hrun
  refine ⟨hmade, fun path depth q' result hexecute => ?_, fun depth result hok => ?_⟩
  · have hupdate : Changes c (start.run c steps).1 q' := by
      have hchanges := Changes.updateAt (c := c) (q := (start.run c steps).1)
        (fun q => Changes.apply (.execute depth)) path
      rw [hexecute] at hchanges
      exact hchanges
    obtain ⟨executing, hresult, hstands⟩ := descendant?_updateAt (congrArg Prod.snd hexecute)
    rw [hexecute] at hstands
    have hok : (executing.execute c depth).outcome = .ok result := by
      cases ho : (executing.execute c depth).outcome with
      | error halt => simp [Operation.apply, ho, Except.toOption] at hresult
      | ok result' => simpa [Operation.apply, ho, Except.toOption] using hresult
    exact ⟨_, hstands, shaped_of_ok hok ((hmade.of_changes hupdate).descendant hstands)
      (((hordered.of_changes hrun).of_changes hupdate).descendant hstands)⟩
  · have hroot := SameRoot.run c steps start
    rw [property?_of_ok hok, hroot.exposed, hexposed, QueryNode.isCollection, QueryNode.type,
      hroot.keyMap, hroot.definition, hkeyMap]
    exact and_iff_left rfl

open Datacenter

theorem machinesExecution_shaped :
    SelectsMade ((leaf (.fresh racks anyRack)).run datacenter selectMachines).1 ∧
      rowNames machinesExecution = [some "r1", some "r2"] ∧
      machinesExecution.query.node.selected.toList = ["hosts"] ∧
      ∃ result, machinesExecution.outcome = .ok result ∧
        Shaped machinesExecution.query result.tree.rows ∧
        result.tree.property? ResultTree.collectionProperty = some "true" := by
  have hnew : Query.new datacenter rack anyRack = .ok (leaf (.fresh racks anyRack)) := rfl
  have hnames : rowNames machinesExecution = [some "r1", some "r2"] := by
    decide +kernel
  have hselected : machinesExecution.query.node.selected.toList = ["hosts"] := by
    decide +kernel
  obtain ⟨result, hok⟩ := exists_ok_of_rowNames (hnames ▸ List.cons_ne_nil _ _)
  obtain ⟨hmade, hrows, hroot⟩ := run_selectsMade_shaped hnew selectMachines
  have hexecute : ((leaf (.fresh racks anyRack)).run datacenter selectMachines).1.updateAt
      datacenter ((Operation.execute 2).apply datacenter) [] =
        (machinesExecution.query, some (some result)) :=
    congrArg (fun outcome : Except Halt ExecutionResult =>
      (machinesExecution.query, some outcome.toOption)) hok
  obtain ⟨executed, hstands, hexecuted⟩ := hrows [] 2 _ result hexecute
  obtain rfl := Option.some.inj hstands
  exact ⟨hmade, hnames, hselected, result, hok, hexecuted, (hroot 2 result hok).2 (by decide)⟩

end Query
end ResourceQuery
