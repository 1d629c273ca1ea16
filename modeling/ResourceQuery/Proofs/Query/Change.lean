import ResourceQuery.Proofs.Query.Preparation
import ResourceQuery.Proofs.Query.Run

/-!
# What operations change

Whatever is done with a query is put together from a few small changes: a node changes what it
remembers, children are made, and a child is changed where it stands.  A node never changes its
definition, it selects no child that is not made, it keeps the properties that it has selected, and
it gives a range of time only to properties that it selects.  What all of these small changes keep
is kept by every run of operations; an example is the order of the children by their names.
-/

namespace ResourceQuery
namespace Query

/-- A query turns into another one by small changes. -/
inductive Changes (c : Cluster) : Query → Query → Prop where
  | refl (q : Query) : Changes c q q
  | trans {q q' q'' : Query} (first : Changes c q q') (second : Changes c q' q'') : Changes c q q''
  /-- The node at the root changes; it can only select children that are made, it drops no
  property, and it gives a new range of time only to a property that it selects. -/
  | node {node node' : QueryNode} {children : Option (List (String × Query))}
      (definition : node'.definition = node.definition)
      (selected : ∀ name ∈ node'.selected,
        name ∈ node.selected ∨ name ∈ (children.getD []).map (·.1))
      (properties : ∀ id ∈ node.propertyIds, id ∈ node'.propertyIds)
      (ranges : ∀ id, node'.timeRanges.get? id ≠ none →
        node.timeRanges.get? id ≠ none ∨ id ∈ node'.propertyIds) :
      Changes c (mk node children) (mk node' children)
  | materialize (q : Query) : Changes c q (q.materialize c)
  /-- The child under a name changes. -/
  | insert {node : QueryNode} {children : List (String × Query)} {name : String} {old new : Query}
      (get : Entries.get? name children = some old) (change : Changes c old new) :
      Changes c (mk node (some children)) (mk node (some (Entries.insert name new children)))
  /-- The child at a position changes. -/
  | replace {node : QueryNode} {before after : List (String × Query)} {name : String}
      {old new : Query} (change : Changes c old new) :
      Changes c (mk node (some (before ++ (name, old) :: after)))
        (mk node (some (before ++ (name, new) :: after)))

namespace Changes

variable {c : Cluster} {q q' : Query} {range : Option TimeRange}

theorem of_children_eq (hchildren : q'.children = q.children)
    (hdefinition : q'.node.definition = q.node.definition)
    (hselected : ∀ name ∈ q'.node.selected,
      name ∈ q.node.selected ∨ name ∈ (q.children.getD []).map (·.1))
    (hproperties : ∀ id ∈ q.node.propertyIds, id ∈ q'.node.propertyIds)
    (hranges : ∀ id, q'.node.timeRanges.get? id ≠ none →
      q.node.timeRanges.get? id ≠ none ∨ id ∈ q'.node.propertyIds) : Changes c q q' := by
  obtain ⟨node, children⟩ := q
  obtain ⟨node', children'⟩ := q'
  obtain rfl : children' = children := hchildren
  exact .node hdefinition hselected hproperties hranges

/-- A change of the node that does not touch the selected children. -/
theorem of_selected_eq (hchildren : q'.children = q.children)
    (hdefinition : q'.node.definition = q.node.definition)
    (hselected : q'.node.selected = q.node.selected)
    (hproperties : ∀ id ∈ q.node.propertyIds, id ∈ q'.node.propertyIds)
    (hranges : ∀ id, q'.node.timeRanges.get? id ≠ none →
      q.node.timeRanges.get? id ≠ none ∨ id ∈ q'.node.propertyIds) : Changes c q q' :=
  of_children_eq hchildren hdefinition (fun _ hname => .inl (hselected ▸ hname)) hproperties
    hranges

/-- A change of what a node remembers besides its selection. -/
theorem of_selection_eq (hchildren : q'.children = q.children)
    (hdefinition : q'.node.definition = q.node.definition)
    (hselected : q'.node.selected = q.node.selected)
    (hproperties : q'.node.propertyIds = q.node.propertyIds)
    (hranges : q'.node.timeRanges = q.node.timeRanges) : Changes c q q' :=
  of_selected_eq hchildren hdefinition hselected (fun _ hid => hproperties ▸ hid)
    fun _ hid => .inl (hranges ▸ hid)

/-! ## Selecting -/

theorem selectChildren {f : QueryNode → QueryNode}
    (hdefinition : (f q.node).definition = q.node.definition)
    (hselected : (f q.node).selected = q.node.selected.insertMany ((q.childrenIn c).map (·.1)))
    (hproperties : (f q.node).propertyIds = q.node.propertyIds)
    (hranges : (f q.node).timeRanges = q.node.timeRanges) :
    Changes c q ((q.materialize c).mapNode f) := by
  refine (materialize q).trans (of_children_eq rfl hdefinition (fun name hname => ?_) ?_ ?_)
  · have hname : name ∈ q.node.selected.insertMany ((q.childrenIn c).map (·.1)) :=
      hselected ▸ hname
    exact SortedSet.mem_insertMany.1 hname
  · intro id hid
    show id ∈ (f q.node).propertyIds
    rw [hproperties]
    exact hid
  · intro id hid
    have hid : (f q.node).timeRanges.get? id ≠ none := hid
    exact .inl (hranges ▸ hid)

theorem selectAll : Changes c q (q.selectAll c range) := selectChildren rfl rfl rfl rfl

theorem selectLocal (id : PropertyId) : Changes c q (q.selectLocal c range id) := by
  cases range with
  | none =>
    exact (materialize q).trans (of_selected_eq rfl rfl rfl
      (fun _ hid' => SortedSet.mem_insert.2 (.inr hid')) fun _ hid' => .inl hid')
  | some r =>
    refine (materialize q).trans (of_selected_eq rfl rfl rfl
      (fun _ hid' => SortedSet.mem_insert.2 (.inr hid')) fun id' hid' => ?_)
    have hid' : (q.node.timeRanges.insert id r).get? id' ≠ none := hid'
    rw [SortedMap.get?_insert] at hid'
    split at hid'
    · rename_i heq
      exact .inr (SortedSet.mem_insert.2 (.inl heq))
    · exact .inl hid'

theorem selectChild {name : String} {old new : Query}
    (hold : Entries.get? name (q.childrenIn c) = some old) (h : Changes c old new) :
    Changes c q (q.selectChild c name new) := by
  have hname : name ∈ (q.childrenIn c).map (·.1) :=
    List.mem_map.2 ⟨(name, old), Entries.mem_of_get? hold, rfl⟩
  have hselect : Changes c (q.materialize c) (mk ((q.node.selectSubResource name).addProperties
      (q.node.keyIds c)) (some (q.childrenIn c))) := by
    refine .node rfl (fun name' hname' => ?_) (fun _ hid => SortedSet.mem_insertMany.2 (.inl hid))
      fun _ hid => .inl hid
    rcases SortedSet.mem_insert.1 hname' with rfl | hselected
    · exact .inr hname
    · exact .inl hselected
  exact ((materialize q).trans hselect).trans (insert hold h)

/-- Whatever is selected comes about by small changes. -/
theorem selectionClosed (c : Cluster) : SelectionClosed c (Changes c) where
  refl := refl
  trans first second := first.trans second
  selectAll _ _ := selectAll
  selectLocal _ id _ := selectLocal id
  selectChild := selectChild
  selectChildren _ := selectChildren rfl rfl rfl rfl

/-! ## Preparing and reading -/

theorem prepare (c : Cluster) (q : Query) : Changes c q (q.prepare c) :=
  (selectionClosed c).prepare q

theorem readNode (p : Option Predicate) : Changes c q (q.readNode c p).state :=
  readNode_state (prepare c q) fun _ => (prepare c q).trans (of_selection_eq rfl rfl rfl rfl rfl)

theorem andThen {s : Stage Query} {next : Query → Stage Query} (h : Changes c q s.state)
    (hnext : Changes c s.state (next s.state).state) : Changes c q (s.andThen next).state :=
  Stage.andThen_state h (h.trans hnext)

/-- The children are carried out one after the other, each where it stands. -/
theorem fetchSelected {fetch : Query → Stage Query} (hfetch : ∀ q, Changes c q (fetch q).state)
    (node : QueryNode) (selected : SortedSet String) (children : List (String × Query)) :
    ∀ before, Changes c (mk node (some (before ++ children)))
      (mk node (some (before ++ (fetchSelected fetch selected children).state))) := by
  induction children with
  | nil => exact fun before => refl _
  | cons e rest ih =>
    obtain ⟨name, child⟩ := e
    intro before
    have hrest (child : Query) : Changes c (mk node (some (before ++ (name, child) :: rest)))
        (mk node (some (before ++ (name, child) ::
          (Query.fetchSelected fetch selected rest).state))) := by
      simpa using ih (before ++ [(name, child)])
    by_cases hname : name ∈ selected
    · simp only [Query.fetchSelected, if_pos hname]
      split
      · exact replace (hfetch child)
      · exact (replace (hfetch child)).trans (hrest _)
    · simp only [Query.fetchSelected, if_neg hname]
      exact hrest child

theorem fetchBeneath {fetch : List KeyMap → Query → Stage Query} {rows : List Resource}
    (hfetch : ∀ keyMaps q, Changes c q (fetch keyMaps q).state) :
    Changes c q (q.fetchBeneath c fetch rows).state := by
  obtain ⟨node, _ | children⟩ := q
  · exact refl _
  · exact fetchSelected (hfetch _) node node.selected children []

theorem fetch (depth : Nat) : ∀ keyMaps q, Changes c q (fetch c depth keyMaps q).state := by
  induction depth with
  | zero =>
    intro keyMaps q
    cases keyMaps with
    | nil => exact of_selection_eq rfl rfl rfl rfl rfl
    | cons m ms => exact of_selection_eq rfl rfl rfl rfl rfl
  | succ depth ih =>
    intro keyMaps q
    cases keyMaps with
    | nil => exact of_selection_eq rfl rfl rfl rfl rfl
    | cons m ms =>
      have hasked : Changes c q (q.addKeyMaps (m :: ms)) := of_selection_eq rfl rfl rfl rfl rfl
      exact andThen (hasked.trans (readNode _)) (fetchBeneath ih)

theorem readRoot : Changes c q (q.readRoot c).state :=
  andThen (readNode _) (of_selection_eq rfl rfl rfl rfl rfl)

/-! ## Executing -/

theorem lastBindings {node : QueryNode} {children : Option (List (String × Query))}
    (visits : List Visit) :
    Changes c (mk node children) (mk (Query.lastBindings node visits) children) := by
  unfold Query.lastBindings
  split
  · exact .node rfl (fun _ hname => .inl hname) (fun _ hid => hid) fun _ hid => .inl hid
  · exact refl _

mutual

theorem settle (c : Cluster) : ∀ (visits : List Visit) (q : Query),
    Changes c q (q.settle c visits)
  | visits, mk _ none => lastBindings visits
  | visits, mk n (some children) =>
    (lastBindings visits).trans (settleChildren c visits _ n.selected children [])

theorem settleChildren (c : Cluster) : ∀ (visits : List Visit) (node : QueryNode)
    (selected : SortedSet String) (children before : List (String × Query)),
    Changes c (mk node (some (before ++ children)))
      (mk node (some (before ++ settleChildren c selected visits children)))
  | _, _, _, [], _ => refl _
  | visits, n, selected, (name, child) :: rest, before => by
    have hrest (child : Query) : Changes c (mk n (some (before ++ (name, child) :: rest)))
        (mk n (some (before ++ (name, child) ::
          Query.settleChildren c selected visits rest))) := by
      simpa using settleChildren c visits n selected rest (before ++ [(name, child)])
    have hchild := settle c (visitsBeneath c child.node visits) child
    simp only [Query.settleChildren]
    split
    · exact (replace hchild).trans (hrest _)
    · exact hrest child

end

theorem execute (depth : Nat) : Changes c q (q.execute c depth).query := by
  have hreads : Changes c q ((q.readRoot c).andThen fun q =>
      q.fetchBeneath c (Query.fetch c depth) (q.shownRows c).1).state :=
    andThen readRoot (fetchBeneath (fetch depth))
  unfold Query.execute
  simp only
  split
  · exact hreads
  · exact hreads.trans (settle c _ _)

/-! ## Runs -/

theorem apply (op : Operation) : Changes c q (op.apply c q).1 := by
  cases op with
  | addProperty category name range => exact (selectionClosed c).addProperty category name q
  | addFields fields => exact (selectionClosed c).addFields fields q
  | addLocalProperty id =>
    exact of_selected_eq rfl rfl rfl (fun _ hid => SortedSet.mem_insert.2 (.inr hid))
      fun _ hid => .inl hid
  | setPredicate p => exact of_selection_eq rfl rfl rfl rfl rfl
  | setPage page => exact of_selection_eq rfl rfl rfl rfl rfl
  | materialize => exact materialize q
  | execute depth => exact execute depth

theorem updateAt {α : Type} {f : Query → Query × α} (hf : ∀ q, Changes c q (f q).1)
    (path : List String) : Changes c q (q.updateAt c f path).1 := by
  induction path generalizing q with
  | nil => exact hf q
  | cons name path ih =>
    unfold Query.updateAt
    split
    · exact materialize q
    · rename_i child hchild
      exact (materialize q).trans (insert hchild ih)

/-- A run of operations is made of small changes. -/
theorem run (steps : List (List String × Operation)) : Changes c q (q.run c steps).1 := by
  induction steps generalizing q with
  | nil => exact refl q
  | cons step steps ih =>
    obtain ⟨path, op⟩ := step
    exact (updateAt (fun q => apply op) path).trans ih

theorem definition (hchanges : Changes c q q') : q'.node.definition = q.node.definition := by
  induction hchanges with
  | trans _ _ ih ih' => exact ih'.trans ih
  | node hdefinition => exact hdefinition
  | _ => rfl

/-- Properties that are selected stay selected. -/
theorem properties (hchanges : Changes c q q') :
    ∀ id ∈ q.node.propertyIds, id ∈ q'.node.propertyIds := by
  induction hchanges with
  | trans _ _ ih ih' => exact fun id hid => ih' id (ih id hid)
  | node _ _ hproperties => exact hproperties
  | _ => exact fun _ hid => hid

end Changes

/-! ## The order of the children -/

/-- Where one child is replaced, every child is the new one or was there before. -/
theorem mem_of_mem_replace {before after : List (String × Query)} {old new e : String × Query}
    (h : e ∈ before ++ new :: after) : e = new ∨ e ∈ before ++ old :: after := by
  rcases List.mem_append.1 h with h | h
  · exact .inr (List.mem_append_left _ h)
  rcases List.mem_cons.1 h with rfl | h
  · exact .inl rfl
  · exact .inr (List.mem_append_right _ (List.mem_cons_of_mem _ h))

/-- The children stand in the order of their names, on every level. -/
inductive Ordered : Query → Prop where
  | intro {q : Query} (sorted : Entries.Sorted (q.children.getD []))
      (beneath : ∀ e ∈ q.children.getD [], Ordered e.2) : Ordered q

namespace Ordered

variable {c : Cluster} {q q' : Query}

theorem sorted (h : Ordered q) : Entries.Sorted (q.children.getD []) := by
  cases h with
  | intro sorted _ => exact sorted

theorem beneath (h : Ordered q) {e : String × Query} (he : e ∈ q.children.getD []) :
    Ordered e.2 := by
  cases h with
  | intro _ beneath => exact beneath e he

theorem leaf (node : QueryNode) : Ordered (leaf node) :=
  .intro .nil fun e he => by cases he

theorem materialize (h : Ordered q) : Ordered (q.materialize c) := by
  obtain ⟨node, _ | children⟩ := q
  · refine .intro (Entries.sorted_ofList _) fun e he => ?_
    obtain ⟨sub, -, hsub⟩ := List.mem_filterMap.1 (Entries.mem_of_mem_ofList he)
    obtain ⟨d, -, hchild⟩ := Option.bind_eq_some_iff.1 hsub
    obtain rfl := Option.some.inj hchild
    exact leaf _
  · exact h

theorem of_changes (hchanges : Changes c q q') (h : Ordered q) : Ordered q' := by
  induction hchanges with
  | refl q => exact h
  | trans _ _ ih ih' => exact ih' (ih h)
  | node => exact .intro h.sorted fun e he => h.beneath he
  | materialize q => exact h.materialize
  | @insert node children name old new hget _ ih =>
    refine .intro (h.sorted.insert name new) fun e he => ?_
    rcases Entries.mem_insert he with rfl | hmem
    · exact ih (h.beneath (Entries.mem_of_get? hget))
    · exact h.beneath hmem
  | @replace node before after name old new _ ih =>
    refine .intro ?_ fun e he => ?_
    · -- The order looks at the names alone, and they are the same.
      have hnames : ((before ++ (name, old) :: after).map (·.1)).Pairwise
          fun x y => compare x y = .lt := List.pairwise_map.2 h.sorted
      have hsame : (before ++ (name, new) :: after).map (·.1) =
          (before ++ (name, old) :: after).map (·.1) := by simp
      exact List.pairwise_map.1 (hsame ▸ hnames)
    · rcases mem_of_mem_replace he with rfl | hmem
      · exact ih (h.beneath (e := (name, old)) List.mem_append_cons_self)
      · exact h.beneath hmem

end Ordered

end Query
end ResourceQuery
