import ResourceQuery.Proofs.Query.Keys
import ResourceQuery.Proofs.Query.Walk

/-!
# Reading again what was read

In a keyed cluster a node that has been prepared is not changed when it is prepared again: its keys
are selected, and where nothing is selected there is nothing to select.  So a fetch that is repeated
makes the same reads again, gets the same answers and leaves everything as it is, up to the place
where it was halted.
-/

namespace ResourceQuery
namespace Query

variable {c : Cluster} {q q' : Query} {depth : Nat} {keyMaps : List KeyMap} {rows : List Resource}
  {p : Option Predicate}

/-- The names of the children, if they are made. -/
def names (q : Query) : Option (List String) := q.children.map (·.map (·.1))

/-! ## Nodes that are prepared -/

/-- The node selects its keys if it is read as a collection, and it selects something if there is
anything to select. -/
structure Prepared (c : Cluster) (q : Query) : Prop where
  keys : q.node.isCollection = true → q.children ≠ none ∧
    ∀ id ∈ q.node.collectionKeys c, id ∈ q.node.propertyIds
  default : q.selectsNothing = true → q.children = some []

theorem selectsNothing_eq_false {id : PropertyId} (hid : id ∈ q.node.propertyIds) :
    q.selectsNothing = false := by
  rw [selectsNothing, SortedSet.isEmpty_eq_false hid, Bool.false_and]

theorem expandDefault_of_mem {id : PropertyId} (hid : id ∈ q.node.propertyIds) :
    q.expandDefault c = q := by
  rw [expandDefault, selectsNothing_eq_false hid]
  rfl

theorem prepare_of_not_collection (h : ¬ q.node.isCollection = true) :
    q.prepare c = q.expandDefault c := by
  rw [prepare, if_neg h]

/-- A node that is prepared stays as it is. -/
theorem Prepared.prepare_eq (hkeyed : c.Keyed) (hbuilt : Built c q) (h : Prepared c q) :
    q.prepare c = q := by
  have hkeys : (if q.node.isCollection then q.addKeys c else q) = q := by
    split
    · rename_i hcollection
      obtain ⟨hmade, hselected⟩ := h.keys hcollection
      rw [hbuilt.addKeys_eq hkeyed]
      obtain ⟨node, _ | children⟩ := q
      · exact absurd rfl hmade
      · have hsame : node.propertyIds.insertMany (node.collectionKeys c) = node.propertyIds :=
          SortedSet.insertMany_of_mem hselected
        show Query.mk { node with
          propertyIds := node.propertyIds.insertMany (node.collectionKeys c) } _ = _
        rw [hsame]
        rfl
    · rfl
  rw [prepare, hkeys, expandDefault]
  split
  · rename_i hnothing
    obtain ⟨node, children⟩ := q
    obtain rfl : children = some [] := h.default hnothing
    rfl
  · rfl

/-- A collection is prepared by selecting its keys alone. -/
theorem Built.prepare_collection (hkeyed : c.Keyed) (h : Built c q)
    (hcollection : q.node.isCollection = true) : q.prepare c =
      (q.materialize c).mapNode (·.addProperties (q.node.collectionKeys c)) := by
  obtain ⟨id, hid⟩ := List.exists_mem_of_ne_nil _ (h.collectionKeys_ne_nil hkeyed)
  have hselected : id ∈ (q.node.addProperties (q.node.collectionKeys c)).propertyIds :=
    SortedSet.mem_insertMany.2 (.inr hid)
  rw [prepare, if_pos hcollection, h.addKeys_eq hkeyed]
  exact expandDefault_of_mem hselected

theorem Built.prepared_prepare (hkeyed : c.Keyed) (h : Built c q) : Prepared c (q.prepare c) := by
  by_cases hcollection : q.node.isCollection = true
  · rw [h.prepare_collection hkeyed hcollection]
    obtain ⟨id, hid⟩ := List.exists_mem_of_ne_nil _ (h.collectionKeys_ne_nil hkeyed)
    have hselected {id : PropertyId} (hid : id ∈ q.node.collectionKeys c) :
        id ∈ (q.node.addProperties (q.node.collectionKeys c)).propertyIds :=
      SortedSet.mem_insertMany.2 (.inr hid)
    refine ⟨fun _ => ⟨nofun, fun id hid => hselected hid⟩, fun hnothing => ?_⟩
    cases hnothing.symm.trans (selectsNothing_eq_false (hselected hid))
  · rw [prepare_of_not_collection hcollection, expandDefault]
    split
    · -- Nothing was selected, so now all children are, and they are made.
      refine ⟨fun h => absurd h hcollection, fun hnothing => ?_⟩
      have hempty : (q.node.selected.insertMany ((q.childrenIn c).map (·.1))).isEmpty = true :=
        (Bool.and_eq_true_iff.1 hnothing).2
      have hnil : (q.childrenIn c).map (·.1) = [] := by
        refine List.eq_nil_iff_forall_not_mem.2 fun name hname => ?_
        exact SortedSet.isEmpty_iff_forall_not_mem.1 hempty name
          (SortedSet.mem_insertMany.2 (.inr hname))
      exact congrArg some (List.map_eq_nil_iff.1 hnil)
    · rename_i hsome
      exact ⟨fun h => absurd h hcollection, fun hnothing => absurd hnothing hsome⟩

/-- Whether a node is prepared shows in its selection, and in the names of its children. -/
theorem Prepared.congr (h : Prepared c q) (hdefinition : q'.node.definition = q.node.definition)
    (hkeyMap : q'.node.keyMap = q.node.keyMap)
    (hpropertyIds : q'.node.propertyIds = q.node.propertyIds)
    (hselected : q'.node.selected = q.node.selected) (hnames : q'.names = q.names) :
    Prepared c q' := by
  have htype : q'.node.type = q.node.type := congrArg ResourceDefinition.type hdefinition
  have hkeys : q'.node.collectionKeys c = q.node.collectionKeys c := by
    simp only [QueryNode.collectionKeys, QueryNode.schema, htype, hkeyMap]
  have hcollection : q'.node.isCollection = q.node.isCollection := by
    simp only [QueryNode.isCollection, htype, hkeyMap]
  have hnothing : q'.selectsNothing = q.selectsNothing := by
    simp only [selectsNothing, hpropertyIds, hselected]
  unfold names at hnames
  constructor
  · rw [hcollection, hkeys, hpropertyIds]
    intro hq
    obtain ⟨hmade, hids⟩ := h.keys hq
    refine ⟨fun hnone => hmade ?_, hids⟩
    rw [hnone, Option.map_none] at hnames
    exact Option.map_eq_none_iff.1 hnames.symm
  · rw [hnothing]
    intro hq
    rw [h.default hq] at hnames
    obtain ⟨children, hsome, hnil⟩ := Option.map_eq_some_iff.1 hnames
    rw [hsome, List.map_eq_nil_iff.1 hnil]

end Query

/-! ## Going on again -/

/-- If going on from where it led changes nothing, neither does the whole. -/
theorem Stage.andThen_again {α : Type} {s : Stage α} {next : α → Stage α}
    (h : s.halt = none → next (next s.state).state = next s.state) :
    ({ s with state := (s.andThen next).state } : Stage α).andThen next = s.andThen next := by
  by_cases hs : s.halt = none
  · have hagain : ({ s with state := (next s.state).state } : Stage α).halt = none := hs
    rw [andThen_of_none hs, andThen_of_none hagain, h hs]
  · obtain ⟨halt, hs⟩ := Option.ne_none_iff_exists'.1 hs
    rw [andThen_of_some hs]
    exact andThen_of_some hs

namespace Query

variable {c : Cluster} {q q' : Query} {depth : Nat} {keyMaps : List KeyMap} {rows : List Resource}
  {p : Option Predicate}

theorem fetchSelected_again {fetch : Query → Stage Query} (selected : SortedSet String) :
    ∀ children : List (String × Query), (∀ e ∈ children, fetch (fetch e.2).state = fetch e.2) →
      fetchSelected fetch selected (fetchSelected fetch selected children).state =
        fetchSelected fetch selected children
  | [], _ => rfl
  | (name, child) :: rest, h => by
    obtain ⟨hchild, hrest⟩ := List.forall_mem_cons.1 h
    have hfirst : fetch (fetch child).state = fetch child := hchild
    have hlater := fetchSelected_again selected rest hrest
    by_cases hname : name ∈ selected
    · cases hs : (fetch child).halt with
      | some halt => simp only [fetchSelected, if_pos hname, hs, hfirst]
      | none => simp only [fetchSelected, if_pos hname, hs, hfirst, hlater]
    · simp only [fetchSelected, if_neg hname, Stage.map, hlater]

theorem fetchBeneath_again {fetch : List KeyMap → Query → Stage Query}
    (h : ∀ keyMaps, ∀ e ∈ q.children.getD [],
      fetch keyMaps (fetch keyMaps e.2).state = fetch keyMaps e.2) :
    (q.fetchBeneath c fetch rows).state.fetchBeneath c fetch rows =
      q.fetchBeneath c fetch rows := by
  obtain ⟨node, _ | children⟩ := q
  · rfl
  · have hselected := fetchSelected_again node.selected children (h (node.rowKeyMaps c rows))
    simp only [fetchBeneath_some, Stage.map, hselected]

theorem fetchSelected_names {fetch : Query → Stage Query} {selected : SortedSet String}
    (children : List (String × Query)) :
    (fetchSelected fetch selected children).state.map (·.1) = children.map (·.1) := by
  induction children with
  | nil => rfl
  | cons e rest ih =>
    obtain ⟨name, child⟩ := e
    by_cases hname : name ∈ selected
    · simp only [fetchSelected, if_pos hname]
      split
      · rfl
      · exact congrArg (name :: ·) ih
    · simp only [fetchSelected, if_neg hname]
      exact congrArg (name :: ·) ih

theorem fetchBeneath_names {fetch : List KeyMap → Query → Stage Query} :
    (q.fetchBeneath c fetch rows).state.names = q.names := by
  obtain ⟨node, _ | children⟩ := q
  · rfl
  · exact congrArg some (fetchSelected_names children)

/-- What is carried out beneath a node changes neither the node nor the names of its children, and
changes nothing when it is carried out again. -/
theorem andThen_fetchBeneath_again {s t : Stage Query}
    {fetch : List KeyMap → Query → Stage Query} {rowsOf : Query → List Resource}
    (ht : s.andThen (fun q => q.fetchBeneath c fetch (rowsOf q)) = t)
    (hrows : ∀ q q' : Query, q'.node = q.node → rowsOf q' = rowsOf q)
    (hfetch : ∀ keyMaps, ∀ e ∈ s.state.children.getD [],
      fetch keyMaps (fetch keyMaps e.2).state = fetch keyMaps e.2) :
    t.state.node = s.state.node ∧ t.state.names = s.state.names ∧
      ({ s with state := t.state } : Stage Query).andThen
        (fun q => q.fetchBeneath c fetch (rowsOf q)) = t := by
  subst ht
  refine ⟨andThen_node fun q => fetchBeneath_node, ?_, Stage.andThen_again fun _ => ?_⟩
  · exact Stage.andThen_state (P := fun q : Query => q.names = s.state.names) rfl
      fetchBeneath_names
  · rw [hrows _ _ fetchBeneath_node]
    exact fetchBeneath_again hfetch

/-! ## Reading again -/

theorem addKeyMaps_of_mem (h : ∀ m ∈ keyMaps, m ∈ q.node.keyMaps) :
    q.addKeyMaps keyMaps = q := by
  obtain ⟨node, children⟩ := q
  have hsame : node.keyMaps.insertMany keyMaps = node.keyMaps := SortedSet.insertMany_of_mem h
  show mk { node with keyMaps := node.keyMaps.insertMany keyMaps } children = _
  rw [hsame]

/-- A prepared node is read as it is. -/
theorem readNode_of_prepare (h : q.prepare c = q) : q.readNode c p =
    match q.answer c p with
    | .ok rows => ⟨q.withRows rows, [⟨q.node.type, q.node.request, p, some rows.length⟩], none⟩
    | .error e => ⟨q, [⟨q.node.type, q.node.request, p, none⟩], some (.refused e)⟩ := by
  cases ha : q.answer c p with
  | ok rows => simp only [readNode, h, ha]
  | error e => simp only [readNode, h, ha]

/-- A node that looks like one that was read, but for the key maps and what is beneath it, makes
the same read and gets the same answer. -/
theorem readNode_again (hkeyed : c.Keyed) (hbuilt : Built c q) (hbuilt' : Built c q')
    (hnode : ∃ keyMaps, q'.node = { (q.readNode c p).state.node with keyMaps })
    (hnames : q'.names = (q.readNode c p).state.names) :
    q'.readNode c p = { q.readNode c p with state := q' } := by
  obtain ⟨keyMaps, hnode⟩ := hnode
  have hprepare := hbuilt.prepared_prepare hkeyed
  cases ha : (q.prepare c).answer c p with
  | error e =>
    simp only [readNode, ha] at hnode hnames
    have hprepared : Prepared c q' := hprepare.congr (by rw [hnode]) (by rw [hnode])
      (by rw [hnode]) (by rw [hnode]) hnames
    have hanswer : q'.answer c p = .error e := by
      rw [← ha, answer, hnode]
      rfl
    rw [readNode_of_prepare (hprepared.prepare_eq hkeyed hbuilt'), hanswer]
    simp only [readNode, ha, hnode]
    rfl
  | ok rows =>
    simp only [readNode, ha] at hnode hnames
    have hprepared : Prepared c q' := hprepare.congr (by rw [hnode]; rfl) (by rw [hnode]; rfl)
      (by rw [hnode]; rfl) (by rw [hnode]; rfl) hnames
    have hanswer : q'.answer c p = .ok rows := by
      rw [← ha, answer, hnode]
      rfl
    have hrows : q'.withRows rows = q' := by
      obtain ⟨node, children⟩ := q'
      obtain rfl : node = _ := hnode
      rfl
    rw [readNode_of_prepare (hprepared.prepare_eq hkeyed hbuilt'), hanswer]
    simp only [readNode, ha, hrows]
    rw [hnode]
    rfl

theorem readNode_keyMaps : (q.readNode c p).state.node.keyMaps = q.node.keyMaps := by
  have hprepare : (q.prepare c).node.keyMaps = q.node.keyMaps :=
    congrArg NodeRecord.keyMaps (q.prepare_record c)
  exact readNode_state (P := fun q' => q'.node.keyMaps = q.node.keyMaps) hprepare fun _ => hprepare

/-- A fetch that is repeated makes the same reads and leaves everything as it is. -/
theorem fetch_again (hkeyed : c.Keyed) (depth : Nat) : ∀ keyMaps q, Built c q →
    fetch c depth keyMaps (fetch c depth keyMaps q).state = fetch c depth keyMaps q := by
  induction depth with
  | zero =>
    intro keyMaps q _
    cases keyMaps with
    | nil => rfl
    | cons m ms =>
      have hsame : (q.addKeyMaps (m :: ms)).addKeyMaps (m :: ms) = q.addKeyMaps (m :: ms) :=
        addKeyMaps_of_mem fun _ hm => SortedSet.mem_insertMany.2 (.inr hm)
      simp only [fetch, hsame]
  | succ depth ih =>
    intro keyMaps q hbuilt
    by_cases hne : keyMaps = []
    · subst hne
      rfl
    have hasked : Built c (q.addKeyMaps keyMaps) :=
      Built.of_changes (q := q) hkeyed (.of_selection_eq rfl rfl rfl rfl rfl) hbuilt
    have hread := hasked.of_changes hkeyed (.readNode (q.node.batchPredicate c keyMaps))
    have hfetched := hbuilt.of_changes hkeyed (.fetch (depth + 1) keyMaps q)
    generalize ht : fetch c (depth + 1) keyMaps q = t at hfetched ⊢
    rw [fetch_eq hne] at ht
    obtain ⟨hnode, hnames, hagain⟩ := andThen_fetchBeneath_again ht
      (fun q q' h => by rw [h]) fun keyMaps e he => ih keyMaps e.2 (hread.beneath he)
    have hbatch : t.state.node.batchPredicate c keyMaps = q.node.batchPredicate c keyMaps := by
      rw [hnode, readNode_batchPredicate]
      rfl
    have hkeyMaps : t.state.addKeyMaps keyMaps = t.state := by
      refine addKeyMaps_of_mem fun m hm => ?_
      rw [hnode, readNode_keyMaps]
      exact SortedSet.mem_insertMany.2 (.inr hm)
    rw [fetch_eq hne, hbatch, hkeyMaps,
      readNode_again hkeyed hasked hfetched ⟨_, hnode⟩ hnames, hagain]

/-! ## The whole execution again -/

/-- The root, too, is read as it was before. -/
theorem readRoot_again (hkeyed : c.Keyed) (hbuilt : Built c q) (hbuilt' : Built c q')
    (hnode : q'.node = (q.readRoot c).state.node) (hnames : q'.names = (q.readRoot c).state.names) :
    q'.readRoot c = { q.readRoot c with state := q' } := by
  have hpredicate : q'.node.predicate c = q.node.predicate c := by
    rw [hnode, readRoot_predicate]
  have hread := readNode_again (p := q.node.predicate c) hkeyed hbuilt hbuilt'
  rw [readRoot] at hnode hnames
  rw [readRoot, readRoot, hpredicate]
  generalize q.readNode c (q.node.predicate c) = s at hread hnode hnames ⊢
  cases hs : s.halt with
  | some halt =>
    have hs' : ({ s with state := q' } : Stage Query).halt = some halt := hs
    rw [Stage.andThen_of_some hs] at hnode hnames ⊢
    rw [hread ⟨_, hnode⟩ hnames, Stage.andThen_of_some hs']
  | none =>
    have hs' : ({ s with state := q' } : Stage Query).halt = none := hs
    rw [Stage.andThen_of_none hs] at hnode hnames ⊢
    have hkeyMaps : q'.addKeyMaps [q'.node.keyMap] = q' := by
      refine addKeyMaps_of_mem fun m hm => ?_
      rw [hnode] at hm ⊢
      exact SortedSet.mem_insertMany.2 (.inr hm)
    rw [hread ⟨_, hnode⟩ hnames, Stage.andThen_of_none hs', hkeyMaps]

/-- The reads of an execution, made again, are the same and leave everything as it is. -/
theorem reads_again (hkeyed : c.Keyed) (hbuilt : Built c q) :
    (q.reads c depth).state.reads c depth = q.reads c depth := by
  have hread := hbuilt.of_changes hkeyed .readRoot
  have hreads : Built c (q.reads c depth).state :=
    hbuilt.of_changes hkeyed (.andThen .readRoot (.fetchBeneath (.fetch depth)))
  generalize ht : q.reads c depth = t at hreads ⊢
  obtain ⟨hnode, hnames, hagain⟩ := andThen_fetchBeneath_again ht
    (fun q q' h => congrArg Prod.fst (shownRows_congr h))
    fun keyMaps e he => fetch_again hkeyed depth keyMaps e.2 (hread.beneath he)
  rw [reads, readRoot_again hkeyed hbuilt hreads hnode hnames, hagain]

end Query
end ResourceQuery
