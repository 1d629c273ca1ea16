import ResourceQuery.Proofs.Query.Repetition
import ResourceQuery.Proofs.Query.Shape
import ResourceQuery.Proofs.Store.Refusal

/-!
# Executing again

An execution leaves traces beneath the root: children keep the bindings of the row that was shown
last, and whether the keys of a child are selected depends on the bindings that it had when it was
read.  In a keyed cluster these traces do not matter.  The predicates of the reads and the bindings
beneath the rows come from the bindings with which a child was made, and an answer has all keys of
its type anyway.  The normal form of a query forgets the traces, and whatever a fetch does beneath
a node shows in its normal form alone.
-/

namespace ResourceQuery

/-! ## Normal forms -/

namespace QueryNode

variable (n : QueryNode) (c : Cluster)

/-- The node with the bindings with which it was made, and with all keys of its type. -/
def normal : QueryNode :=
  { n with
    keyMap := n.baseKeyMap
    propertyIds := n.propertyIds.insertMany (n.schema c).keys.values }

theorem normal_normal : (n.normal c).normal c = n.normal c :=
  congrArg (fun propertyIds => { n with keyMap := n.baseKeyMap, propertyIds })
    (SortedSet.insertMany_self n.propertyIds (n.schema c).keys.values)

theorem normal_addProperties {ids : List PropertyId} (hids : ids ⊆ (n.schema c).keys.values) :
    (n.addProperties ids).normal c = n.normal c := by
  have hsame : (n.propertyIds.insertMany ids).insertMany (n.schema c).keys.values =
      n.propertyIds.insertMany (n.schema c).keys.values := by
    rw [SortedSet.insertMany_comm]
    exact SortedSet.insertMany_of_mem fun id hid => SortedSet.mem_insertMany.2 (.inr (hids hid))
  exact congrArg (fun propertyIds => { n with keyMap := n.baseKeyMap, propertyIds }) hsame

/-- The keys that are added make no difference to a read, as they are part of every answer. -/
theorem read_normal (hselects : ∃ id, id ∈ n.propertyIds) (p : Option Predicate) :
    c.store.read n.type (n.normal c).request p = c.store.read n.type n.request p := by
  by_cases hall : n.allProperties = true
  · have hids : (n.normal c).request.propertyIds = n.request.propertyIds := by
      rw [request, request, if_pos hall]
      exact if_pos hall
    exact Store.read_congr (fun id _ => by rw [hids]) (by rw [Request.isAll, hids]; rfl)
  · have hids (n' : QueryNode) (h : n'.allProperties = n.allProperties) :
        n'.request.propertyIds = n'.propertyIds := if_neg (h ▸ hall)
    obtain ⟨id, hid⟩ := hselects
    have hnormal (id : PropertyId) : id ∈ (n.normal c).propertyIds ↔
        id ∈ n.propertyIds ∨ id ∈ (n.schema c).keys.values := SortedSet.mem_insertMany
    refine Store.read_congr (fun id hkey => ?_) ?_
    · rw [hids n rfl, hids (n.normal c) rfl, hnormal]
      exact or_iff_left hkey
    · rw [Request.isAll, Request.isAll, hids n rfl, hids (n.normal c) rfl,
        SortedSet.isEmpty_eq_false hid, SortedSet.isEmpty_eq_false ((hnormal id).2 (.inl hid))]

end QueryNode

namespace Query

mutual

/-- The query with its node and all that it selects in normal form, and without other children. -/
def normal (c : Cluster) : Query → Query
  | mk node none => mk (node.normal c) (some [])
  | mk node (some children) => mk (node.normal c) (some (normalChildren c node.selected children))

/-- The normal forms of the selected children. -/
def normalChildren (c : Cluster) (selected : SortedSet String) :
    List (String × Query) → List (String × Query)
  | [] => []
  | (name, child) :: rest =>
    let rest := normalChildren c selected rest
    if name ∈ selected then (name, child.normal c) :: rest else rest

end

variable {c : Cluster} {q q' : Query} {depth : Nat} {keyMaps : List KeyMap} {rows : List Resource}
  {p : Option Predicate}

theorem normal_eq (c : Cluster) (q : Query) : q.normal c =
    mk (q.node.normal c) (some (normalChildren c q.node.selected (q.children.getD []))) := by
  obtain ⟨node, _ | children⟩ := q
  · rfl
  · rfl

@[simp] theorem normal_node (c : Cluster) (q : Query) : (q.normal c).node = q.node.normal c := by
  rw [normal_eq]
  rfl

theorem normalChildren_of_mem {selected : SortedSet String} {name : String} (child : Query)
    (rest : List (String × Query)) (hname : name ∈ selected) :
    normalChildren c selected ((name, child) :: rest) =
      (name, child.normal c) :: normalChildren c selected rest := by
  simp only [normalChildren, if_pos hname]

theorem normalChildren_of_not_mem {selected : SortedSet String} {name : String} (child : Query)
    (rest : List (String × Query)) (hname : name ∉ selected) :
    normalChildren c selected ((name, child) :: rest) = normalChildren c selected rest := by
  simp only [normalChildren, if_neg hname]

theorem normalChildren_empty (children : List (String × Query)) :
    normalChildren c ∅ children = [] := by
  induction children with
  | nil => rfl
  | cons e rest ih =>
    obtain ⟨name, child⟩ := e
    rw [normalChildren_of_not_mem child rest (SortedSet.not_mem_empty name), ih]

/-- What stands beneath a normal form are the normal forms of children. -/
theorem exists_of_mem_normalChildren {selected : SortedSet String} :
    ∀ {children : List (String × Query)} {e : String × Query},
      e ∈ normalChildren c selected children → ∃ child, (e.1, child) ∈ children ∧
        e.2 = child.normal c
  | (name, child) :: rest, e, he => by
    by_cases hname : name ∈ selected
    · rw [normalChildren_of_mem child rest hname] at he
      rcases List.mem_cons.1 he with rfl | he
      · exact ⟨child, List.mem_cons_self, rfl⟩
      · obtain ⟨child', hmem, heq⟩ := exists_of_mem_normalChildren he
        exact ⟨child', List.mem_cons_of_mem _ hmem, heq⟩
    · rw [normalChildren_of_not_mem child rest hname] at he
      obtain ⟨child', hmem, heq⟩ := exists_of_mem_normalChildren he
      exact ⟨child', List.mem_cons_of_mem _ hmem, heq⟩

mutual

theorem normal_normal (c : Cluster) : ∀ q : Query, (q.normal c).normal c = q.normal c
  | mk node none => by
    rw [normal, normal, node.normal_normal]
    rfl
  | mk node (some children) => by
    rw [normal, normal, node.normal_normal]
    exact congrArg (fun children => mk (node.normal c) (some children))
      (normalChildren_normalChildren c node.selected children)

theorem normalChildren_normalChildren (c : Cluster) (selected : SortedSet String) :
    ∀ children : List (String × Query), normalChildren c selected
      (normalChildren c selected children) = normalChildren c selected children
  | [] => rfl
  | (name, child) :: rest => by
    have hrest := normalChildren_normalChildren c selected rest
    by_cases hname : name ∈ selected
    · rw [normalChildren_of_mem child rest hname, normalChildren_of_mem _ _ hname, hrest,
        normal_normal c child]
    · rw [normalChildren_of_not_mem child rest hname, hrest]

end

mutual

/-- The bindings that an execution leaves behind do not show in a normal form. -/
theorem normal_settle (c : Cluster) : ∀ (visits : List Visit) (q : Query),
    (q.settle c visits).normal c = q.normal c
  | visits, mk node none => by
    obtain ⟨keyMap, h⟩ := lastBindings_eq node visits
    rw [settle, h]
    rfl
  | visits, mk node (some children) => by
    obtain ⟨keyMap, h⟩ := lastBindings_eq node visits
    rw [settle, h]
    exact congrArg (fun children => mk (node.normal c) (some children))
      (normalChildren_settleChildren c visits node.selected children)

theorem normalChildren_settleChildren (c : Cluster) : ∀ (visits : List Visit)
    (selected : SortedSet String) (children : List (String × Query)),
    normalChildren c selected (settleChildren c selected visits children) =
      normalChildren c selected children
  | _, _, [] => rfl
  | visits, selected, (name, child) :: rest => by
    have hrest := normalChildren_settleChildren c visits selected rest
    by_cases hname : name ∈ selected
    · rw [settleChildren, if_pos hname, normalChildren_of_mem _ _ hname,
        normalChildren_of_mem _ _ hname, hrest, normal_settle c _ child]
    · rw [settleChildren, if_neg hname, normalChildren_of_not_mem _ _ hname,
        normalChildren_of_not_mem _ _ hname, hrest]

end

mutual

/-- The rows of a result are those of the normal form. -/
theorem resultRows_normal (c : Cluster) : ∀ (q : Query) (keyMap : KeyMap) (rows : List Resource),
    (q.normal c).resultRows c keyMap rows = q.resultRows c keyMap rows
  | mk node none, keyMap, rows => rfl
  | mk node (some children), keyMap, rows => by
    rw [normal, resultRows, resultRows]
    refine List.map_congr_left fun row _ => congrArg (ResultRow.mk row) ?_
    exact resultsBeneath_normalChildren c node.selected _ children

theorem resultsBeneath_normalChildren (c : Cluster) (selected : SortedSet String)
    (rowKeys : KeyMap) : ∀ children : List (String × Query),
    resultsBeneath c selected rowKeys (normalChildren c selected children) =
      resultsBeneath c selected rowKeys children
  | [] => rfl
  | (name, child) :: rest => by
    have hrest := resultsBeneath_normalChildren c selected rowKeys rest
    by_cases hname : name ∈ selected
    · rw [normalChildren_of_mem child rest hname]
      simp only [resultsBeneath, if_pos hname, hrest, normal_node, resultRows_normal c child]
      rfl
    · rw [normalChildren_of_not_mem child rest hname, hrest]
      simp only [resultsBeneath, if_neg hname]

end

/-! ## Fetches and normal forms -/

/-- Two stages end in the same way, and in states of one normal form. -/
def SameEnd (c : Cluster) (s t : Stage Query) : Prop :=
  t.halt = s.halt ∧ t.state.normal c = s.state.normal c

namespace SameEnd

variable {s t u : Stage Query}

theorem symm (h : SameEnd c s t) : SameEnd c t s := ⟨h.1.symm, h.2.symm⟩

theorem trans (h : SameEnd c s t) (h' : SameEnd c t u) : SameEnd c s u :=
  ⟨h'.1.trans h.1, h'.2.trans h.2⟩

theorem andThen {next : Query → Stage Query} (h : SameEnd c s t)
    (hnext : SameEnd c (next s.state) (next t.state)) :
    SameEnd c (s.andThen next) (t.andThen next) := by
  cases hs : s.halt with
  | some halt =>
    rw [Stage.andThen_of_some hs, Stage.andThen_of_some (h.1.trans hs)]
    exact h
  | none =>
    rw [Stage.andThen_of_none hs, Stage.andThen_of_none (h.1.trans hs)]
    exact hnext

end SameEnd

theorem Built.normal (h : Built c q) : Built c (q.normal c) := by
  induction h with
  | @intro q known made exposed selects beneath ih =>
    have hbeneath {e : String × Query} (he : e ∈ (q.normal c).children.getD []) :
        ∃ child, (e.1, child) ∈ q.children.getD [] ∧ e.2 = child.normal c := by
      rw [normal_eq] at he
      exact exists_of_mem_normalChildren he
    refine .intro ?_ (fun hnone => ?_) (fun e he => ?_) (fun e he => ?_) fun e he => ?_
    · rw [normal_node]
      exact known
    · rw [normal_eq] at hnone
      cases hnone
    · obtain ⟨child, hmem, heq⟩ := hbeneath he
      rw [heq, normal_node, normal_node]
      exact exposed _ hmem
    · obtain ⟨child, hmem, heq⟩ := hbeneath he
      obtain ⟨id, hid⟩ := selects _ hmem
      rw [heq, normal_node]
      exact ⟨id, SortedSet.mem_insertMany.2 (.inl hid)⟩
    · obtain ⟨child, hmem, heq⟩ := hbeneath he
      rw [heq]
      exact ih _ hmem

theorem collectionKeys_subset (n : QueryNode) (c : Cluster) :
    n.collectionKeys c ⊆ (n.schema c).keys.values := fun _ => Schema.mem_values_of_mem_keysOf

/-- What is selected when a node is prepared is part of its normal form anyway. -/
theorem Built.normal_prepare (hkeyed : c.Keyed) (h : Built c q)
    (hselects : ∃ id, id ∈ q.node.propertyIds) : (q.prepare c).normal c = q.normal c := by
  by_cases hcollection : q.node.isCollection = true
  · have hnode := q.node.normal_addProperties c (collectionKeys_subset q.node c)
    rw [h.prepare_collection hkeyed hcollection, normal_eq, normal_eq c q]
    obtain ⟨node, _ | children⟩ := q
    · -- Children are made now, but none of them is selected.
      have hselected : node.selected = ∅ := h.made rfl
      have hchildren : normalChildren c node.selected (newChildren c node) = [] := by
        rw [hselected, normalChildren_empty]
      show mk _ (some (normalChildren c node.selected (newChildren c node))) = _
      rw [hchildren]
      exact congrArg (fun node' => mk node' (some [])) hnode
    · exact congrArg (fun node' => mk node' (some (normalChildren c node.selected children))) hnode
  · obtain ⟨id, hid⟩ := hselects
    rw [prepare_of_not_collection hcollection, expandDefault_of_mem hid]

/-- A normal form is prepared. -/
theorem Built.prepare_normal (hkeyed : c.Keyed) (h : Built c q)
    (hselects : ∃ id, id ∈ q.node.propertyIds) : (q.normal c).prepare c = q.normal c := by
  obtain ⟨id, hid⟩ := hselects
  refine Prepared.prepare_eq hkeyed h.normal ⟨fun _ => ⟨?_, fun id hid => ?_⟩, fun hnothing => ?_⟩
  · rw [normal_eq]
    nofun
  · rw [normal_node] at hid ⊢
    exact SortedSet.mem_insertMany.2 (.inr (collectionKeys_subset (q.node.normal c) c hid))
  · have hid : id ∈ (q.normal c).node.propertyIds := by
      rw [normal_node]
      exact SortedSet.mem_insertMany.2 (.inl hid)
    cases hnothing.symm.trans (selectsNothing_eq_false hid)

theorem normal_withRows (rows : List Resource) (q : Query) :
    (q.withRows rows).normal c = (q.normal c).withRows rows := by
  obtain ⟨node, _ | children⟩ := q
  · rfl
  · rfl

theorem normal_addKeyMaps (keyMaps : List KeyMap) (q : Query) :
    (q.addKeyMaps keyMaps).normal c = (q.normal c).addKeyMaps keyMaps := by
  obtain ⟨node, _ | children⟩ := q
  · rfl
  · rfl

/-- The read of a normal form gets the same answer. -/
theorem readNode_normal (hkeyed : c.Keyed) (h : Built c q)
    (hselects : ∃ id, id ∈ q.node.propertyIds) (p : Option Predicate) :
    ((q.normal c).readNode c p).halt = (q.readNode c p).halt ∧
      ((q.normal c).readNode c p).state = (q.readNode c p).state.normal c := by
  have hnormal := h.normal_prepare hkeyed hselects
  have hanswer : (q.normal c).answer c p = (q.prepare c).answer c p := by
    obtain ⟨id, hid⟩ := hselects
    have hprepared := (q.prepare c).node.read_normal c
      ⟨id, (Changes.prepare c q).properties id hid⟩ p
    rw [← hnormal, answer, answer, normal_node]
    exact hprepared
  rw [readNode_of_prepare (h.prepare_normal hkeyed hselects), hanswer, readNode]
  cases (q.prepare c).answer c p with
  | error e => exact ⟨rfl, hnormal.symm⟩
  | ok rows =>
    refine ⟨rfl, ?_⟩
    show (q.normal c).withRows rows = ((q.prepare c).withRows rows).normal c
    rw [normal_withRows, hnormal]

theorem fetchSelected_normal {fetch : Query → Stage Query} (selected : SortedSet String) :
    ∀ children : List (String × Query),
      (∀ e ∈ children, SameEnd c (fetch e.2) (fetch (e.2.normal c))) →
        (fetchSelected fetch selected (normalChildren c selected children)).halt =
            (fetchSelected fetch selected children).halt ∧
          normalChildren c selected
              (fetchSelected fetch selected (normalChildren c selected children)).state =
            normalChildren c selected (fetchSelected fetch selected children).state
  | [], _ => ⟨rfl, rfl⟩
  | (name, child) :: rest, h => by
    obtain ⟨hchild, hrest⟩ := List.forall_mem_cons.1 h
    obtain ⟨hhalt, hstate⟩ : SameEnd c (fetch child) (fetch (child.normal c)) := hchild
    have hlater := fetchSelected_normal selected rest hrest
    by_cases hname : name ∈ selected
    · rw [normalChildren_of_mem child rest hname]
      simp only [fetchSelected, if_pos hname, hhalt]
      cases hs : (fetch child).halt with
      | some halt =>
        refine ⟨rfl, ?_⟩
        rw [normalChildren_of_mem _ _ hname, normalChildren_of_mem _ _ hname, hstate,
          normalChildren_normalChildren]
      | none =>
        refine ⟨hlater.1, ?_⟩
        rw [normalChildren_of_mem _ _ hname, normalChildren_of_mem _ _ hname, hstate, hlater.2]
    · rw [normalChildren_of_not_mem child rest hname]
      simp only [fetchSelected, if_neg hname, Stage.map]
      rw [normalChildren_of_not_mem _ _ hname]
      exact hlater

theorem fetchBeneath_normal {fetch : List KeyMap → Query → Stage Query}
    (h : ∀ keyMaps, ∀ e ∈ q.children.getD [],
      SameEnd c (fetch keyMaps e.2) (fetch keyMaps (e.2.normal c))) (rows : List Resource) :
    SameEnd c (q.fetchBeneath c fetch rows) ((q.normal c).fetchBeneath c fetch rows) := by
  obtain ⟨node, _ | children⟩ := q
  · exact ⟨rfl, normal_normal c (mk node none)⟩
  · obtain ⟨hhalt, hstate⟩ := fetchSelected_normal node.selected children
      (h (node.rowKeyMaps c rows))
    refine ⟨hhalt, ?_⟩
    show mk ((node.normal c).normal c) (some _) = mk (node.normal c) (some _)
    rw [node.normal_normal]
    exact congrArg (fun children => mk (node.normal c) (some children)) hstate

theorem fetch_nil_sameEnd (depth : Nat) (q : Query) :
    SameEnd c (fetch c depth [] q) (fetch c depth [] (q.normal c)) := by
  have hfetch (q : Query) : fetch c depth [] q = ⟨q.withRows [], [], none⟩ := by
    cases depth with
    | zero => rfl
    | succ depth => rfl
  rw [hfetch, hfetch]
  refine ⟨rfl, ?_⟩
  show ((q.normal c).withRows []).normal c = (q.withRows []).normal c
  rw [normal_withRows, normal_withRows, normal_normal]

/-- What a fetch does shows in the normal form of the query alone. -/
theorem fetch_normal (hkeyed : c.Keyed) (depth : Nat) : ∀ keyMaps q, Built c q →
    (∃ id, id ∈ q.node.propertyIds) →
      SameEnd c (fetch c depth keyMaps q) (fetch c depth keyMaps (q.normal c)) := by
  induction depth with
  | zero =>
    intro keyMaps q _ _
    cases keyMaps with
    | nil => exact fetch_nil_sameEnd 0 q
    | cons m ms =>
      refine ⟨rfl, ?_⟩
      show ((q.normal c).addKeyMaps (m :: ms)).normal c = (q.addKeyMaps (m :: ms)).normal c
      rw [normal_addKeyMaps, normal_addKeyMaps, normal_normal]
  | succ depth ih =>
    intro keyMaps q hbuilt hselects
    by_cases hne : keyMaps = []
    · rw [hne]
      exact fetch_nil_sameEnd (depth + 1) q
    have hasked : Built c (q.addKeyMaps keyMaps) :=
      Built.of_changes (q := q) hkeyed (.of_selection_eq rfl rfl rfl rfl rfl) hbuilt
    have hbatch : (q.normal c).node.batchPredicate c keyMaps = q.node.batchPredicate c keyMaps := by
      rw [normal_node]
      rfl
    obtain ⟨hhalt, hstate⟩ := readNode_normal hkeyed hasked hselects
      (q.node.batchPredicate c keyMaps)
    have hread := hasked.of_changes hkeyed (.readNode (q.node.batchPredicate c keyMaps))
    rw [fetch_eq hne, fetch_eq hne, hbatch, ← normal_addKeyMaps]
    refine SameEnd.andThen ⟨hhalt, ?_⟩ ?_
    · rw [hstate, normal_normal]
    · rw [hstate, normal_node]
      exact fetchBeneath_normal
        (fun keyMaps e he => ih keyMaps e.2 (hread.beneath he) (hread.selects he)) _

/-- What is done beneath a node shows in its normal form alone. -/
theorem fetchBeneath_sameEnd (hkeyed : c.Keyed) (hbuilt : Built c q) (hbuilt' : Built c q')
    (hnormal : q'.normal c = q.normal c) (rows : List Resource) :
    SameEnd c (q.fetchBeneath c (fetch c depth) rows) (q'.fetchBeneath c (fetch c depth) rows) := by
  have hbeneath {q : Query} (h : Built c q) := fetchBeneath_normal (c := c) (q := q)
    (fun keyMaps e he => fetch_normal hkeyed depth keyMaps e.2 (h.beneath he) (h.selects he)) rows
  have hother := hbeneath hbuilt'
  rw [hnormal] at hother
  exact (hbeneath hbuilt).trans hother.symm

/-! ## Executing twice -/

theorem resultTree_eq_of_normal_eq (hnode : q'.node = q.node) (hnormal : q'.normal c = q.normal c)
    (rows : List Resource) : q'.resultTree c rows = q.resultTree c rows := by
  rw [resultTree, resultTree, hnode, ← resultRows_normal c q', hnormal, resultRows_normal]

/-- The root of what an execution has read is read again as it is.  What is beneath it may differ
from what was left there, as long as the normal form is the same. -/
theorem reads_sameEnd (hkeyed : c.Keyed) (hbuilt : Built c q) (hbuilt' : Built c q')
    (hnode : q'.node = (q.reads c depth).state.node)
    (hnames : q'.names = (q.reads c depth).state.names)
    (hnormal : q'.normal c = (q.reads c depth).state.normal c) :
    SameEnd c (q.reads c depth) (q'.reads c depth) ∧ (q'.reads c depth).state.node = q'.node := by
  have hread := hbuilt.of_changes hkeyed .readRoot
  have hreads : Built c (q.reads c depth).state :=
    hbuilt.of_changes hkeyed (.andThen .readRoot (.fetchBeneath (.fetch depth)))
  generalize hs : q.reads c depth = s at hnode hnames hnormal hreads ⊢
  obtain ⟨hroot, hrootNames, hagain⟩ := andThen_fetchBeneath_again hs
    (fun q q' h => congrArg Prod.fst (shownRows_congr h))
    fun keyMaps e he => fetch_again hkeyed depth keyMaps e.2 (hread.beneath he)
  have hrootAgain := readRoot_again hkeyed hbuilt hbuilt' (hnode.trans hroot)
    (hnames.trans hrootNames)
  rw [reads, hrootAgain, andThen_node fun q => fetchBeneath_node]
  refine ⟨?_, rfl⟩
  nth_rewrite 1 [← hagain]
  refine SameEnd.andThen ⟨rfl, hnormal⟩ ?_
  simp only [shownRows_congr hnode]
  exact fetchBeneath_sameEnd hkeyed hreads hbuilt' hnormal _

theorem settleChildren_names (visits : List Visit) (selected : SortedSet String)
    (children : List (String × Query)) :
    (settleChildren c selected visits children).map (·.1) = children.map (·.1) := by
  induction children with
  | nil => rfl
  | cons e rest ih =>
    obtain ⟨name, child⟩ := e
    rw [settleChildren]
    split
    · exact congrArg (name :: ·) ih
    · exact congrArg (name :: ·) ih

theorem settle_names (visits : List Visit) (q : Query) :
    (q.settle c visits).names = q.names := by
  obtain ⟨node, _ | children⟩ := q
  · rw [settle]
    rfl
  · rw [settle]
    exact congrArg some (settleChildren_names visits node.selected children)

/-- In a keyed cluster an execution that directly follows another one has the same outcome, whatever
was done with the query before. -/
theorem execute_again {type : ResourceType} {keyMap : KeyMap} {start : Query} (hkeyed : c.Keyed)
    (hnew : Query.new c type keyMap = .ok start) (steps : List (List String × Operation))
    (depth : Nat) :
    (((start.run c steps).1.execute c depth).query.execute c depth).outcome =
      ((start.run c steps).1.execute c depth).outcome := by
  have hbuilt : Built c (start.run c steps).1 := (Built.new hnew).of_changes hkeyed (.run steps)
  generalize (start.run c steps).1 = q at hbuilt ⊢
  have hexecuted := hbuilt.of_changes hkeyed (.execute depth)
  rw [execute_eq c depth q] at hexecuted ⊢
  cases hhalt : (q.reads c depth).halt with
  | some halt =>
    -- What was halted is halted again at the same place.
    exact outcome_eq_error_iff.2 (by rw [reads_again hkeyed hbuilt, hhalt])
  | none =>
    rw [hhalt] at hexecuted
    -- The root keeps its own bindings, and those that are left beneath it are forgotten.
    have hnode := settle_node c [⟨(q.reads c depth).state.node.keyMap,
      ((q.reads c depth).state.shownRows c).1⟩] (q.reads c depth).state
    obtain ⟨⟨hend, hnormal⟩, hsame⟩ := reads_sameEnd hkeyed hbuilt hexecuted hnode
      (settle_names _ _) (normal_settle c _ _)
    have hroot := hsame.trans hnode
    simp only
    rw [execute_eq, hend, hhalt]
    simp only [shownRows_congr hroot, resultTree_eq_of_normal_eq hroot hnormal]

open Datacenter

theorem datacenter_keyed : datacenter.Keyed where
  typed := Catalog.typed_ofList _
  own := by decide +kernel
  valid := by decide +kernel
  apart := by decide +kernel

/-- The first execution binds the hosts to a rack, and the second one shows the same machines. -/
theorem machinesExecution_again :
    (∃ result, machinesExecution.outcome = .ok result ∧
        (machinesExecution.query.execute datacenter 2).outcome = .ok result ∧
        result.tree.size = 2) ∧
      ∃ e ∈ machinesExecution.query.children.getD [], e.2.node.keyMap ≠ e.2.node.baseKeyMap := by
  have hnew : Query.new datacenter rack anyRack = .ok (leaf (.fresh racks anyRack)) := rfl
  have hagain : (machinesExecution.query.execute datacenter 2).outcome =
      machinesExecution.outcome := execute_again datacenter_keyed hnew selectMachines 2
  have hsize : machinesExecution.outcome.toOption.map (·.tree.size) = some 2 := by decide +kernel
  have hbound : ∃ e ∈ machinesExecution.query.children.getD [],
      e.2.node.keyMap ≠ e.2.node.baseKeyMap := by
    decide +kernel
  generalize machinesExecution = e at hagain hsize hbound ⊢
  cases houtcome : e.outcome with
  | error halt =>
    rw [houtcome] at hsize
    cases hsize
  | ok result =>
    rw [houtcome] at hagain hsize
    exact ⟨⟨result, rfl, hagain, Option.some.inj hsize⟩, hbound⟩

end Query
end ResourceQuery
