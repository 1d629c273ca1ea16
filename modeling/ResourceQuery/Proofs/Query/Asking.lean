import ResourceQuery.Proofs.Query.Shape
import ResourceQuery.Proofs.Query.Unfolding

/-!
# The key maps under which nodes are asked

A node remembers every key map under which it was asked.  As long as only the root is executed, the
root is asked under its own bindings alone, and everything beneath it under the key maps of rows,
which leave no type open.  Selecting, preparing and reading keep this, so it holds after every run
that executes nothing but the root.
-/

namespace ResourceQuery

/-- The key map leaves no type open. -/
def KeyMap.AllBound (m : KeyMap) : Prop := ∀ t, m.get? t ≠ some .unbound

theorem Cluster.allBound_rowKeyMap (c : Cluster) (row : Resource) (m : KeyMap) :
    (c.rowKeyMap row m).AllBound := by
  intro t ht
  rw [get?_rowKeyMap, Option.or_eq_some_iff] at ht
  rcases ht with hself | ⟨-, hinherited⟩
  · split at hself
    · simp at hself
    · cases hself
  · obtain ⟨b, -, hb⟩ := Option.bind_eq_some_iff.1 hinherited
    simp at hb

theorem QueryNode.allBound_of_mem_rowKeyMaps {n : QueryNode} {c : Cluster} {rows : List Resource}
    {m : KeyMap} (h : m ∈ n.rowKeyMaps c rows) : m.AllBound := by
  obtain ⟨row, -, keyMap, -, -, rfl⟩ := (n.mem_rowKeyMaps c).1 h
  exact c.allBound_rowKeyMap row keyMap

namespace Query

/-- A query was asked, on every level, under key maps that leave no type open. -/
inductive AskedBound : Query → Prop where
  | intro {q : Query} (keyMaps : ∀ m ∈ q.node.keyMaps, m.AllBound)
      (beneath : ∀ e ∈ q.children.getD [], AskedBound e.2) : AskedBound q

/-- What stands beneath the root was asked under key maps that leave no type open. -/
def AskedBoundBeneath (q : Query) : Prop := ∀ e ∈ q.children.getD [], e.2.AskedBound

/-- The root was asked under its own bindings alone, and what stands beneath it under key maps that
leave no type open. -/
structure AskedFromRoot (q : Query) : Prop where
  own : ∀ m ∈ q.node.keyMaps, m = q.node.keyMap
  beneath : q.AskedBoundBeneath

variable {c : Cluster} {q q' : Query} {rows : List Resource} {keyMaps : List KeyMap}

theorem askedBound_iff :
    q.AskedBound ↔ (∀ m ∈ q.node.keyMaps, m.AllBound) ∧ q.AskedBoundBeneath := by
  constructor
  · rintro ⟨hkeyMaps, hbeneath⟩
    exact ⟨hkeyMaps, hbeneath⟩
  · rintro ⟨hkeyMaps, hbeneath⟩
    exact .intro hkeyMaps hbeneath

theorem askedBound_leaf {node : QueryNode} (h : node.keyMaps = ∅) : (leaf node).AskedBound := by
  refine .intro (fun m hm => ?_) nofun
  have hm : m ∈ node.keyMaps := hm
  rw [h] at hm
  exact absurd hm (SortedSet.not_mem_empty m)

theorem AskedFromRoot.new {type : ResourceType} {keyMap : KeyMap}
    (h : Query.new c type keyMap = .ok q) : q.AskedFromRoot := by
  obtain ⟨d, -, rfl⟩ := eq_leaf_of_new h
  exact ⟨fun m hm => absurd hm (SortedSet.not_mem_empty m), nofun⟩

/-! ## What asks nothing -/

/-- From the one query to the other no node is asked. -/
structure AsksNothing (q q' : Query) : Prop where
  keyMaps : q'.node.keyMaps = q.node.keyMaps
  beneath : q.AskedBoundBeneath → q'.AskedBoundBeneath

namespace AsksNothing

variable {q'' : Query}

theorem askedBound (h : AsksNothing q q') (hq : q.AskedBound) : q'.AskedBound := by
  obtain ⟨hkeyMaps, hbeneath⟩ := askedBound_iff.1 hq
  exact askedBound_iff.2 ⟨h.keyMaps ▸ hkeyMaps, h.beneath hbeneath⟩

theorem askedFromRoot (h : AsksNothing q q') (hroot : SameRoot q q') (hq : q.AskedFromRoot) :
    q'.AskedFromRoot where
  own m hm := (hq.own m (h.keyMaps ▸ hm)).trans hroot.keyMap.symm
  beneath := h.beneath hq.beneath

theorem of_children_eq (hkeyMaps : q'.node.keyMaps = q.node.keyMaps)
    (hchildren : q'.children = q.children) : AsksNothing q q' :=
  ⟨hkeyMaps, fun hq e he => hq e (hchildren ▸ he)⟩

theorem refl (q : Query) : AsksNothing q q := of_children_eq rfl rfl

theorem trans (h : AsksNothing q q') (h' : AsksNothing q' q'') : AsksNothing q q'' :=
  ⟨h'.keyMaps.trans h.keyMaps, fun hq => h'.beneath (h.beneath hq)⟩

theorem materialize (c : Cluster) (q : Query) : AsksNothing q (q.materialize c) := by
  obtain ⟨node, _ | children⟩ := q
  · refine ⟨rfl, fun _ e he => ?_⟩
    obtain ⟨sub, -, d, -, rfl⟩ := mem_newChildren he
    exact askedBound_leaf rfl
  · exact refl _

/-- A child is changed where it stands. -/
theorem insert {node : QueryNode} {name : String} {old new : Query}
    (hkeyMaps : node.keyMaps = q.node.keyMaps) (get : Entries.get? name (q.childrenIn c) = some old)
    (change : AsksNothing old new) :
    AsksNothing q (.mk node (some (Entries.insert name new (q.childrenIn c)))) := by
  refine ⟨hkeyMaps, fun hq e he => ?_⟩
  have hmade : (q.materialize c).AskedBoundBeneath := (materialize c q).beneath hq
  rcases Entries.mem_insert he with rfl | he
  · exact change.askedBound (hmade _ (Entries.mem_of_get? get))
  · exact hmade e he

theorem selectionClosed (c : Cluster) : SelectionClosed c AsksNothing where
  refl := refl
  trans first second := first.trans second
  selectAll _ q := (materialize c q).trans (of_children_eq rfl rfl)
  selectLocal range id q := by
    rw [selectLocal_eq]
    exact (materialize c q).trans (of_children_eq rfl rfl)
  selectChild get change := insert rfl get change
  selectChildren q := (materialize c q).trans (of_children_eq rfl rfl)

theorem readNode (p : Option Predicate) (q : Query) : AsksNothing q (q.readNode c p).state :=
  have hprepare : AsksNothing q (q.prepare c) := (selectionClosed c).prepare q
  readNode_state hprepare fun _ => hprepare.trans (of_children_eq rfl rfl)

mutual

theorem settle (c : Cluster) : ∀ (visits : List Visit) (q : Query),
    AsksNothing q (q.settle c visits)
  | visits, .mk node none => by
    obtain ⟨keyMap, h⟩ := lastBindings_eq node visits
    rw [Query.settle, h]
    exact of_children_eq rfl rfl
  | visits, .mk node (some children) => by
    obtain ⟨keyMap, h⟩ := lastBindings_eq node visits
    rw [Query.settle, h]
    exact ⟨rfl, askedBound_settleChildren c visits node.selected children⟩

theorem askedBound_settleChildren (c : Cluster) : ∀ (visits : List Visit)
    (selected : SortedSet String) (children : List (String × Query)),
    (∀ e ∈ children, e.2.AskedBound) →
      ∀ e ∈ settleChildren c selected visits children, e.2.AskedBound
  | _, _, [], _ => nofun
  | visits, selected, (name, child) :: rest, h => by
    obtain ⟨hchild, hrest⟩ := List.forall_mem_cons.1 h
    have hsettled := askedBound_settleChildren c visits selected rest hrest
    by_cases hname : name ∈ selected
    · rw [settleChildren, if_pos hname]
      exact List.forall_mem_cons.2 ⟨(settle c _ child).askedBound hchild, hsettled⟩
    · rw [settleChildren, if_neg hname]
      exact List.forall_mem_cons.2 ⟨hchild, hsettled⟩

end

theorem apply {op : Operation} (hop : ∀ depth, op ≠ .execute depth) (q : Query) :
    AsksNothing q (op.apply c q).1 := by
  cases op with
  | addProperty category name range => exact (selectionClosed c).addProperty category name q
  | addFields fields => exact (selectionClosed c).addFields fields q
  | addLocalProperty id => exact of_children_eq rfl rfl
  | setPredicate p => exact of_children_eq rfl rfl
  | setPage page => exact of_children_eq rfl rfl
  | materialize => exact materialize c q
  | execute depth => exact absurd rfl (hop depth)

theorem updateAt {α : Type} {f : Query → Query × α} (hf : ∀ q, AsksNothing q (f q).1)
    (path : List String) (q : Query) : AsksNothing q (q.updateAt c f path).1 := by
  induction path generalizing q with
  | nil => exact hf q
  | cons name path ih =>
    unfold Query.updateAt
    split
    · exact materialize c q
    · rename_i child hchild
      exact insert rfl hchild (ih child)

end AsksNothing

/-! ## Asking -/

theorem AskedBound.addKeyMaps (h : q.AskedBound) (hkeyMaps : ∀ m ∈ keyMaps, m.AllBound) :
    (q.addKeyMaps keyMaps).AskedBound := by
  obtain ⟨hbefore, hbeneath⟩ := askedBound_iff.1 h
  refine askedBound_iff.2 ⟨fun m hm => ?_, hbeneath⟩
  rcases SortedSet.mem_insertMany.1 hm with hm | hm
  · exact hbefore m hm
  · exact hkeyMaps m hm

theorem AskedBound.withRows (h : q.AskedBound) : (q.withRows rows).AskedBound :=
  have hrows : AsksNothing q (q.withRows rows) := .of_children_eq rfl rfl
  hrows.askedBound h

theorem AskedFromRoot.addOwn (h : q.AskedFromRoot) :
    (q.addKeyMaps [q.node.keyMap]).AskedFromRoot := by
  refine ⟨fun m hm => ?_, h.beneath⟩
  rcases SortedSet.mem_insertMany.1 hm with hm | hm
  · exact h.own m hm
  · exact List.mem_singleton.1 hm

theorem askedBound_fetchSelected {fetch : Query → Stage Query} {selected : SortedSet String}
    (hfetch : ∀ q, q.AskedBound → (fetch q).state.AskedBound) :
    ∀ {children : List (String × Query)}, (∀ e ∈ children, e.2.AskedBound) →
      ∀ e ∈ (fetchSelected fetch selected children).state, e.2.AskedBound
  | [], _ => nofun
  | (name, child) :: rest, h => by
    obtain ⟨hchild, hrest⟩ := List.forall_mem_cons.1 h
    have hfetched : ∀ e ∈ (fetchSelected fetch selected rest).state, e.2.AskedBound :=
      askedBound_fetchSelected hfetch hrest
    by_cases hname : name ∈ selected
    · simp only [fetchSelected, if_pos hname]
      split
      · exact List.forall_mem_cons.2 ⟨hfetch child hchild, hrest⟩
      · exact List.forall_mem_cons.2 ⟨hfetch child hchild, hfetched⟩
    · simp only [fetchSelected, if_neg hname]
      exact List.forall_mem_cons.2 ⟨hchild, hfetched⟩

/-- Beneath the rows of a node everything is asked under the key maps of these rows. -/
theorem AskedBoundBeneath.fetchBeneath {fetch : List KeyMap → Query → Stage Query}
    (hfetch : ∀ keyMaps, (∀ m ∈ keyMaps, m.AllBound) →
      ∀ q, q.AskedBound → (fetch keyMaps q).state.AskedBound)
    (h : q.AskedBoundBeneath) : (q.fetchBeneath c fetch rows).state.AskedBoundBeneath := by
  obtain ⟨node, _ | children⟩ := q
  · exact h
  · exact askedBound_fetchSelected
      (hfetch _ fun _ => QueryNode.allBound_of_mem_rowKeyMaps) h

theorem AskedBound.fetch (depth : Nat) : ∀ keyMaps, (∀ m ∈ keyMaps, m.AllBound) →
    ∀ q, q.AskedBound → (fetch c depth keyMaps q).state.AskedBound := by
  induction depth with
  | zero =>
    intro keyMaps hkeyMaps q h
    cases keyMaps with
    | nil => exact h.withRows
    | cons m ms => exact h.addKeyMaps hkeyMaps
  | succ depth ih =>
    intro keyMaps hkeyMaps q h
    cases keyMaps with
    | nil => exact h.withRows
    | cons m ms =>
      have hread : ((q.addKeyMaps (m :: ms)).readNode c
          (q.node.batchPredicate c (m :: ms))).state.AskedBound :=
        (AsksNothing.readNode _ _).askedBound (h.addKeyMaps hkeyMaps)
      obtain ⟨hnode, hbeneath⟩ := askedBound_iff.1 hread
      refine Stage.andThen_state hread (askedBound_iff.2 ⟨?_, hbeneath.fetchBeneath ih⟩)
      rw [fetchBeneath_node]
      exact hnode

namespace AskedFromRoot

theorem readRoot (h : q.AskedFromRoot) : (q.readRoot c).state.AskedFromRoot := by
  have hread : (q.readNode c (q.node.predicate c)).state.AskedFromRoot := by
    refine (AsksNothing.readNode _ q).askedFromRoot ?_ h
    exact readNode_state ((SameRoot.selectionClosed c).prepare q) fun _ =>
      ((SameRoot.selectionClosed c).prepare q).trans ⟨rfl, rfl, rfl⟩
  exact Stage.andThen_state hread hread.addOwn

theorem reads (h : q.AskedFromRoot) (depth : Nat) : (q.reads c depth).state.AskedFromRoot := by
  have hroot : (q.readRoot c).state.AskedFromRoot := h.readRoot
  refine Stage.andThen_state hroot ⟨?_, hroot.beneath.fetchBeneath (AskedBound.fetch depth)⟩
  rw [fetchBeneath_node]
  exact hroot.own

theorem execute (h : q.AskedFromRoot) (depth : Nat) :
    (q.execute c depth).query.AskedFromRoot := by
  have hreads := h.reads (c := c) depth
  rw [execute_eq]
  split
  · exact hreads
  · exact (AsksNothing.settle c _ _).askedFromRoot (.of_node_eq (settle_node c _ _)) hreads

/-- A run that executes nothing but the root asks the root under its own bindings alone. -/
theorem run {steps : List (List String × Operation)}
    (hsteps : ∀ step ∈ steps, ∀ depth, step.2 = .execute depth → step.1 = [])
    (h : q.AskedFromRoot) : (q.run c steps).1.AskedFromRoot := by
  induction steps generalizing q with
  | nil => exact h
  | cons step steps ih =>
    obtain ⟨path, op⟩ := step
    obtain ⟨hstep, hrest⟩ := List.forall_mem_cons.1 hsteps
    refine ih hrest ?_
    by_cases hop : ∃ depth, op = .execute depth
    · obtain ⟨depth, rfl⟩ := hop
      obtain rfl : path = [] := hstep depth rfl
      exact h.execute depth
    · have hasks : ∀ q, AsksNothing q (op.apply c q).1 :=
        AsksNothing.apply fun depth hdepth => hop ⟨depth, hdepth⟩
      exact (AsksNothing.updateAt hasks path q).askedFromRoot (SameRoot.run c [(path, op)] q) h

end AskedFromRoot
end Query
end ResourceQuery
