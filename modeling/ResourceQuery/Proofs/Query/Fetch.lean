import ResourceQuery.Query.Execution
import ResourceQuery.Proofs.Query.Preparation
import ResourceQuery.Proofs.Store.Rows

/-!
# Executions that reach their end

A fetch that is not halted has read every selected child for the key maps of the rows above it, or
has emptied it where there were no rows.  `Fetched` says this without stages and calls, and
`Executed` says the same of a whole execution.  What an execution leaves behind is shown by these
two alone.
-/

namespace ResourceQuery

theorem Stage.of_andThen {α : Type} {s : Stage α} {next : α → Stage α}
    (h : (s.andThen next).halt = none) :
    s.halt = none ∧ (next s.state).halt = none ∧ (s.andThen next).state = (next s.state).state := by
  cases hs : s.halt with
  | some halt => simp [andThen, hs] at h
  | none =>
    simp only [andThen, hs] at h ⊢
    exact ⟨trivial, h, trivial⟩

namespace Query

/-! ## One node -/

/-- The query with its root prepared and read: it remembers the key maps and the rows. -/
def asked (c : Cluster) (keyMaps : List KeyMap) (rows : List Resource) (q : Query) : Query :=
  ((q.prepare c).addKeyMaps keyMaps).withRows rows

/-- The query with another query in the place of each selected child. -/
def mapSelected (f : Query → Query) (q : Query) : Query :=
  mk q.node (q.children.map fun children => children.map fun (name, child) =>
    (name, if name ∈ q.node.selected then f child else child))

/-- The children that are selected, with their names. -/
def selectedChildren (q : Query) : List (String × Query) :=
  (q.children.getD []).filter fun (name, _) => name ∈ q.node.selected

theorem mem_selectedChildren {q : Query} {e : String × Query} :
    e ∈ q.selectedChildren ↔ e ∈ q.children.getD [] ∧ e.1 ∈ q.node.selected := by
  simp [selectedChildren]

@[simp] theorem mapSelected_node (f : Query → Query) (q : Query) :
    (q.mapSelected f).node = q.node := rfl

theorem selectedChildren_mapSelected (f : Query → Query) (q : Query) :
    (q.mapSelected f).selectedChildren = q.selectedChildren.map fun e => (e.1, f e.2) := by
  have hchildren : (q.mapSelected f).children.getD [] = (q.children.getD []).map
      fun e => (e.1, if e.1 ∈ q.node.selected then f e.2 else e.2) := by
    obtain ⟨node, _ | children⟩ := q
    · rfl
    · rfl
  rw [selectedChildren, hchildren, List.filter_map, mapSelected_node, selectedChildren]
  refine List.map_congr_left fun e he => ?_
  have hsel : e.1 ∈ q.node.selected := by simpa using (List.mem_filter.1 he).2
  simp [hsel]

section Asked

variable (c : Cluster) (keyMaps : List KeyMap) (rows : List Resource) (q : Query)

@[simp] theorem asked_type : (q.asked c keyMaps rows).node.type = q.node.type :=
  q.prepare_type c

@[simp] theorem asked_keyMap : (q.asked c keyMaps rows).node.keyMap = q.node.keyMap :=
  q.prepare_keyMap c

@[simp] theorem asked_page : (q.asked c keyMaps rows).node.page = q.node.page :=
  q.prepare_page c

theorem asked_selectedChildren :
    (q.asked c keyMaps rows).selectedChildren = (q.prepare c).selectedChildren := by
  unfold asked
  rfl

theorem asked_bindingsUnder (rowKeys : KeyMap) :
    (q.asked c keyMaps rows).node.bindingsUnder rowKeys = q.node.bindingsUnder rowKeys :=
  congrArg (SortedMap.extend · rowKeys) (q.prepare_baseKeyMap c)

theorem mem_asked_keyMaps {m : KeyMap} (h : m ∈ keyMaps) :
    m ∈ (q.asked c keyMaps rows).node.keyMaps :=
  SortedSet.mem_insertMany.2 (.inr h)

/-- What a key map amounts to does not depend on what was selected or read. -/
theorem prepare_predicateFor (m : KeyMap) :
    (q.prepare c).node.predicateFor c m = q.node.predicateFor c m := by
  simp [QueryNode.predicateFor, QueryNode.keyPredicate, QueryNode.boundKeys, QueryNode.schema]

theorem asked_predicateFor (m : KeyMap) :
    (q.asked c keyMaps rows).node.predicateFor c m = q.node.predicateFor c m :=
  q.prepare_predicateFor c m

/-- The page that is asked for is not read before the rows are there. -/
theorem asked_setPage (page : Option PageRequest) :
    (q.setPage page).asked c keyMaps rows = (q.asked c keyMaps rows).setPage page := by
  rw [asked, prepare_setPage]
  rfl

theorem answer_setPage (page : Option PageRequest) (p : Option Predicate) :
    ((q.setPage page).prepare c).answer c p = (q.prepare c).answer c p := by
  rw [prepare_setPage]
  rfl

end Asked

/-! ## A fetch -/

/-- Carrying out a query for key maps, down to a depth, reaches its end and leaves another one. -/
inductive Fetched (c : Cluster) : Nat → List KeyMap → Query → Query → Prop where
  /-- Without key maps nothing is read. -/
  | idle (depth : Nat) (q : Query) : Fetched c depth [] q (q.withRows [])
  /-- The query is read for all key maps at once, and its selected children are carried out for
  the key maps of its rows. -/
  | read {depth : Nat} {keyMaps : List KeyMap} {q : Query} {rows : List Resource}
      (f : Query → Query)
      (nonempty : keyMaps ≠ [])
      (answer : (q.prepare c).answer c (q.node.batchPredicate c keyMaps) = .ok rows)
      (beneath : ∀ e ∈ (q.asked c keyMaps rows).selectedChildren,
        Fetched c depth ((q.asked c keyMaps rows).node.rowKeyMaps c (Resource.distinct rows))
          e.2 (f e.2)) :
      Fetched c (depth + 1) keyMaps q ((q.asked c keyMaps rows).mapSelected f)

namespace Fetched

variable {c : Cluster} {depth : Nat} {keyMaps : List KeyMap} {q q' : Query}

theorem type (h : Fetched c depth keyMaps q q') : q'.node.type = q.node.type := by
  cases h with
  | idle => rfl
  | read => exact q.asked_type c ..

theorem bindingsUnder (h : Fetched c depth keyMaps q q') (rowKeys : KeyMap) :
    q'.node.bindingsUnder rowKeys = q.node.bindingsUnder rowKeys := by
  cases h with
  | idle => rfl
  | read => exact q.asked_bindingsUnder c ..

end Fetched

theorem readNode_done {c : Cluster} {p : Option Predicate} {q : Query}
    (h : (q.readNode c p).halt = none) : ∃ rows, (q.prepare c).answer c p = .ok rows ∧
      (q.readNode c p).state = (q.prepare c).withRows rows := by
  cases ha : (q.prepare c).answer c p with
  | error e => simp [readNode, ha] at h
  | ok rows => exact ⟨rows, rfl, by simp [readNode, ha]⟩

theorem fetchSelected_done {fetch : Query → Stage Query} {selected : SortedSet String} :
    ∀ {children : List (String × Query)}, (fetchSelected fetch selected children).halt = none →
      (∀ e ∈ children, e.1 ∈ selected → (fetch e.2).halt = none) ∧
        (fetchSelected fetch selected children).state = children.map fun (name, child) =>
          (name, if name ∈ selected then (fetch child).state else child)
  | [], _ => by simp [fetchSelected]
  | (name, child) :: rest, h => by
    by_cases hname : name ∈ selected
    · simp only [fetchSelected, if_pos hname] at h ⊢
      cases hs : (fetch child).halt with
      | some halt => simp [hs] at h
      | none =>
        simp only [hs] at h ⊢
        obtain ⟨hrest, hstate⟩ := fetchSelected_done h
        refine ⟨List.forall_mem_cons.2 ⟨fun _ => hs, hrest⟩, ?_⟩
        simp [hname, hstate]
    · simp only [fetchSelected, if_neg hname] at h ⊢
      obtain ⟨hrest, hstate⟩ := fetchSelected_done h
      refine ⟨List.forall_mem_cons.2 ⟨fun hsel => absurd hsel hname, hrest⟩, ?_⟩
      simp [Stage.map, hname, hstate]

theorem fetchBeneath_done {c : Cluster} {fetch : List KeyMap → Query → Stage Query}
    {rows : List Resource} {q : Query} (h : (q.fetchBeneath c fetch rows).halt = none) :
    (∀ e ∈ q.selectedChildren, (fetch (q.node.rowKeyMaps c rows) e.2).halt = none) ∧
      (q.fetchBeneath c fetch rows).state =
        q.mapSelected fun child => (fetch (q.node.rowKeyMaps c rows) child).state := by
  obtain ⟨node, _ | children⟩ := q
  · exact ⟨by simp [selectedChildren, children], rfl⟩
  · obtain ⟨hdone, hstate⟩ := fetchSelected_done h
    refine ⟨fun e he => ?_, ?_⟩
    · obtain ⟨hmem, hsel⟩ := mem_selectedChildren.1 he
      exact hdone e hmem hsel
    · exact congrArg (fun children => mk node (some children)) hstate

theorem fetched_of_done {c : Cluster} : ∀ {depth : Nat} {keyMaps : List KeyMap} {q : Query},
    (fetch c depth keyMaps q).halt = none →
      Fetched c depth keyMaps q (fetch c depth keyMaps q).state
  | _, [], q, _ => by
    rw [fetch]
    exact .idle _ q
  | 0, m :: ms, q, h => by simp [fetch] at h
  | depth + 1, m :: ms, q, h => by
    simp only [fetch] at h ⊢
    obtain ⟨hread, hbeneath, hstate⟩ := Stage.of_andThen h
    obtain ⟨rows, hanswer, hrows⟩ := readNode_done hread
    rw [hstate]
    rw [hrows] at hbeneath ⊢
    -- The key maps are remembered before the node is prepared, which makes no difference.
    rw [prepare_addKeyMaps] at hanswer hbeneath ⊢
    obtain ⟨hdone, hstate⟩ := fetchBeneath_done hbeneath
    rw [hstate]
    exact .read _ (by simp) hanswer fun e he => fetched_of_done (hdone e he)

/-! ## Result trees -/

/-- The tree of a child beneath a row, under given bindings. -/
def nestedTree (c : Cluster) (keyMap : KeyMap) (q : Query) : ResultTree :=
  .mk (showsCollection q.node keyMap) nestedProperties
    (q.resultRows c keyMap (q.node.share c keyMap))

theorem resultsBeneath_eq (c : Cluster) (selected : SortedSet String) (rowKeys : KeyMap) :
    ∀ children, resultsBeneath c selected rowKeys children =
      (children.filter fun (name, _) => name ∈ selected).map fun (name, child) =>
        (name, child.nestedTree c (child.node.bindingsUnder rowKeys))
  | [] => by simp [resultsBeneath]
  | (name, child) :: rest => by
    have hrest := resultsBeneath_eq c selected rowKeys rest
    by_cases hname : name ∈ selected
    · simp [resultsBeneath, hname, hrest, nestedTree]
    · simp [resultsBeneath, hname, hrest]

/-- Rows with the trees that a function gives for the selected children and their bindings. -/
def expand (c : Cluster) (nested : KeyMap → Query → ResultTree) (keyMap : KeyMap)
    (rows : List Resource) (q : Query) : List ResultRow :=
  rows.map fun row => .mk row (q.selectedChildren.map fun (name, child) =>
    (name, nested (child.node.bindingsUnder (c.rowKeyMap row keyMap)) child))

theorem resultRows_eq (c : Cluster) (keyMap : KeyMap) (rows : List Resource) (q : Query) :
    q.resultRows c keyMap rows = q.expand c (nestedTree c) keyMap rows := by
  obtain ⟨node, _ | children⟩ := q
  · simp [resultRows, expand, selectedChildren, children]
  · simp only [resultRows, resultsBeneath_eq]
    rfl

/-! ## A whole execution -/

/-- The execution of a query reaches its end: the root is read, the selected children are carried
out for the key maps of the rows that are shown, and the result is the tree of these rows. -/
structure Executed (c : Cluster) (depth : Nat) (q : Query) (rows : List Resource)
    (f : Query → Query) : Prop where
  answer : (q.prepare c).answer c (q.node.predicate c) = .ok rows
  beneath : ∀ e ∈ (q.asked c [q.node.keyMap] rows).selectedChildren,
    Fetched c depth ((q.asked c [q.node.keyMap] rows).node.rowKeyMaps c
      ((q.asked c [q.node.keyMap] rows).shownRows c).1) e.2 (f e.2)

/-- The query that an execution leaves behind, but for the bindings of its children. -/
def executed (c : Cluster) (rows : List Resource) (f : Query → Query) (q : Query) : Query :=
  (q.asked c [q.node.keyMap] rows).mapSelected f

theorem readRoot_done {c : Cluster} {q : Query} (h : (q.readRoot c).halt = none) :
    ∃ rows, (q.prepare c).answer c (q.node.predicate c) = .ok rows ∧
      (q.readRoot c).state = q.asked c [q.node.keyMap] rows := by
  obtain ⟨hread, -, hstate⟩ := Stage.of_andThen h
  obtain ⟨rows, hanswer, hrows⟩ := readNode_done hread
  refine ⟨rows, hanswer, ?_⟩
  have hkeyMap : ((q.prepare c).withRows rows).node.keyMap = q.node.keyMap := q.prepare_keyMap c
  rw [readRoot, hstate, hrows, hkeyMap]
  rfl

/-- When the read of the root is answered, the root remembers the answer. -/
theorem readRoot_of_answer {c : Cluster} {q : Query} {rows : List Resource}
    (h : (q.prepare c).answer c (q.node.predicate c) = .ok rows) :
    (q.readRoot c).halt = none ∧ (q.readRoot c).state = q.asked c [q.node.keyMap] rows := by
  have hroot : (q.readRoot c).halt = none := by simp [readRoot, readNode, h, Stage.andThen]
  obtain ⟨rows', hanswer, hstate⟩ := readRoot_done hroot
  obtain rfl := Except.ok.inj (hanswer.symm.trans h)
  exact ⟨hroot, hstate⟩

theorem executed_of_ok {c : Cluster} {depth : Nat} {q : Query} {result : ExecutionResult}
    (h : (q.execute c depth).outcome = .ok result) : ∃ rows f, Executed c depth q rows f ∧
      result.tree = (q.executed c rows f).resultTree c ((q.executed c rows f).shownRows c).1 ∧
      result.page = ((q.executed c rows f).shownRows c).2 ∧
      ∃ visits, (q.execute c depth).query = (q.executed c rows f).settle c visits := by
  simp only [execute] at h ⊢
  split at h
  · cases h
  · rename_i hdone
    obtain ⟨hroot, hbeneath, hstate⟩ := Stage.of_andThen hdone
    obtain ⟨rows, hanswer, hrows⟩ := readRoot_done hroot
    rw [hrows] at hbeneath hstate
    obtain ⟨hchildren, hbelow⟩ := fetchBeneath_done hbeneath
    rw [hbelow] at hstate
    obtain rfl := Except.ok.inj h
    rw [hstate]
    exact ⟨rows, _, ⟨hanswer, fun e he => fetched_of_done (hchildren e he)⟩, rfl, rfl, _, rfl⟩

end Query
end ResourceQuery
