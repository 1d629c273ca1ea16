import ResourceQuery.Proofs.Query.Depth
import ResourceQuery.Proofs.Query.Paging
import ResourceQuery.Proofs.Store.Refusal

/-!
# Pages that are refused

With a page the children are fetched for fewer rows, so their reads have fewer alternatives.  They
give no row that they would not give without the page, as long as the batches do not mix key maps
with and without a predicate.  Still such a read can be refused where the read for all rows is not:
when a single alternative is left, it requires the instances that it names.  Nothing else can make
a page fail.
-/

namespace ResourceQuery

/-! ## Stages that succeed -/

namespace Stage

variable {α : Type} {P : Call → Prop}

/-- The stage reaches its end just when all its reads have a property. -/
def SucceedsIff (P : Call → Prop) (s : Stage α) : Prop :=
  s.halt = none ↔ ∀ call ∈ s.calls, P call

theorem composes_succeedsIff (P : Call → Prop) :
    Composes fun calls halt => halt = none ↔ ∀ call ∈ calls, P call where
  nil := by simp
  append first rest := by
    rw [rest, List.forall_mem_append]
    exact ⟨fun hcalls => ⟨first.1 rfl, hcalls⟩, fun hcalls => hcalls.2⟩

theorem succeedsIff_andThen {s : Stage α} {next : α → Stage α} (h : s.SucceedsIff P)
    (hnext : s.halt = none → (next s.state).SucceedsIff P) : (s.andThen next).SucceedsIff P :=
  (composes_succeedsIff P).andThen h hnext

end Stage

namespace Query

variable {c : Cluster} {q q' : Query} {depth : Nat} {keyMaps keyMaps' : List KeyMap}
  {P : Call → Prop} {p : Option Predicate} {rows : List Resource}

theorem fetchBeneath_succeedsIff {fetch : List KeyMap → Query → Stage Query}
    (h : ∀ e ∈ q.selectedChildren, (fetch (q.node.rowKeyMaps c rows) e.2).SucceedsIff P) :
    (q.fetchBeneath c fetch rows).SucceedsIff P :=
  composes_fetchBeneath (Stage.composes_succeedsIff P) h

/-- The instances that a read requires are stored. -/
def NamesStored (c : Cluster) (call : Call) : Prop := c.store.NamesStored call.type call.predicate

instance (call : Call) : Decidable (NamesStored c call) :=
  inferInstanceAs (Decidable (c.store.NamesStored call.type call.predicate))

/-- A node whose type is known, and which asks for exposed properties, is read successfully just
when the instances that are required are stored. -/
theorem readNode_succeedsIff {table : Table} (htable : c.store.table? q.node.type = some table)
    (hsupported : table.unsupported (q.prepare c).node.request p = []) :
    (q.readNode c p).SucceedsIff (NamesStored c) := by
  have htable : c.store.table? (q.prepare c).node.type = some table := by rwa [prepare_type]
  have hread := Store.read_ok_iff htable hsupported
  unfold Stage.SucceedsIff
  cases ha : (q.prepare c).answer c p with
  | ok rows =>
    have hnames := hread.1 ⟨rows, ha⟩
    simpa [readNode, ha, NamesStored] using hnames
  | error e =>
    have hrefused : ¬ c.store.NamesStored (q.prepare c).node.type p := by
      rw [← hread]
      rintro ⟨rows, hrows⟩
      cases hrows.symm.trans ha
    simpa [readNode, ha, NamesStored] using hrefused

end Query

/-! ## Fewer key maps -/

namespace Cluster

variable {c : Cluster} {r s : Resource}

/-- Rows that a hash table takes for one carry the same keys. -/
theorem rowKey?_alike (h : r.Alike s) : c.rowKey? r = c.rowKey? s := by
  have hkey : r.key? = s.key? := by
    funext id
    have hvalues := h.2 id
    unfold Resource.key?
    generalize r.value? id = a at hvalues ⊢
    generalize s.value? id = b at hvalues ⊢
    cases hvalues with
    | none => rfl
    | some hab => exact hab.keyText_eq
  funext t
  rw [rowKey?, rowKey?, h.1, hkey]

end Cluster

namespace QueryNode

variable {n n' : QueryNode} {c : Cluster} {keyMaps keyMaps' : List KeyMap}
  {rows rows' : List Resource}

/-- Fewer rows under fewer key maps give fewer key maps. -/
theorem rowKeyMaps_subset (hmaps : ∀ m ∈ n'.keyMaps, m ∈ n.keyMaps)
    (hrows : ∀ r ∈ rows', ∃ s ∈ rows, s.Alike r) :
    n'.rowKeyMaps c rows' ⊆ n.rowKeyMaps c rows := by
  intro m hm
  obtain ⟨r, hr, keyMap, hkeyMap, hconflicts, rfl⟩ := (mem_rowKeyMaps ..).1 hm
  obtain ⟨s, hs, halike⟩ := hrows r hr
  refine (mem_rowKeyMaps ..).2 ⟨s, hs, keyMap, hmaps keyMap hkeyMap, ?_, ?_⟩
  · rw [c.conflicts_congr (Cluster.rowKey?_alike halike), hconflicts]
  · exact congrFun (c.rowKeyMap_congr halike.1 (Cluster.rowKey?_alike halike)) keyMap

/-- Of some key maps, either none amounts to a predicate or all do. -/
def Unmixed (n : QueryNode) (c : Cluster) (keyMaps : List KeyMap) : Prop :=
  (∀ m ∈ keyMaps, n.predicateFor c m = none) ∨ ∀ m ∈ keyMaps, n.predicateFor c m ≠ none

instance : Decidable (n.Unmixed c keyMaps) := inferInstanceAs (Decidable (_ ∨ _))

theorem Unmixed.mono (h : n.Unmixed c keyMaps) (hsub : keyMaps' ⊆ keyMaps) :
    n.Unmixed c keyMaps' :=
  h.imp (fun hnone m hm => hnone m (hsub hm)) fun hsome m hm => hsome m (hsub hm)

theorem Unmixed.congr (hpredicate : ∀ m, n'.predicateFor c m = n.predicateFor c m)
    (h : n'.Unmixed c keyMaps) : n.Unmixed c keyMaps := by
  simpa only [Unmixed, hpredicate] using h

/-- With fewer key maps a batch admits fewer rows. -/
theorem Unmixed.admits (h : n.Unmixed c keyMaps) (hsub : keyMaps' ⊆ keyMaps) (hne : keyMaps' ≠ [])
    {x : Resource} (hx : Predicate.admits (n.batchPredicate c keyMaps') x = true) :
    Predicate.admits (n.batchPredicate c keyMaps) x = true := by
  rw [admits_batchPredicate] at hx ⊢
  rcases hx with hnone | ⟨m, hm, p, hp, hholds⟩
  · obtain ⟨m, hm⟩ := List.exists_mem_of_ne_nil _ hne
    rcases h with hall | hsome
    · exact .inl hall
    · exact absurd (hnone m hm) (hsome m (hsub hm))
  · exact .inr ⟨m, hsub hm, p, hp, hholds⟩

/-- With the keys of the schema, a batch mentions what the user's filter mentions. -/
theorem Unmixed.keys_or_mentions_iff (h : n.Unmixed c keyMaps) (hne : keyMaps ≠ [])
    (id : PropertyId) :
    (id ∈ (n.schema c).keys.values ∨ id ∈ Predicate.mentions (n.batchPredicate c keyMaps)) ↔
      (id ∈ (n.schema c).keys.values ∨ id ∈ Predicate.mentions n.userPredicate) := by
  constructor
  · rintro (hkey | hbatch)
    · exact .inl hkey
    · obtain ⟨m, -, hid⟩ := n.exists_of_mem_mentions_batchPredicate c hbatch
      exact (QueryNode.keys_or_mentions_iff m id).1 (.inr hid)
  · rintro (hkey | huser)
    · exact .inl hkey
    obtain ⟨m, hm⟩ := List.exists_mem_of_ne_nil _ hne
    rcases h with hnone | hsome
    · -- Without a predicate there is no filter that could mention anything.
      have hfilter := ((n.predicateFor_eq_none_iff c).1 (hnone m hm)).1
      rw [hfilter] at huser
      cases huser
    · exact .inr (n.mem_mentions_batchPredicate c hm (hsome m hm) huser)

/-- So with fewer key maps it mentions the same. -/
theorem Unmixed.mentions_iff (h : n.Unmixed c keyMaps) (hsub : keyMaps' ⊆ keyMaps)
    (hne : keyMaps' ≠ []) (id : PropertyId) :
    (id ∈ (n.schema c).keys.values ∨ id ∈ Predicate.mentions (n.batchPredicate c keyMaps')) ↔
      (id ∈ (n.schema c).keys.values ∨ id ∈ Predicate.mentions (n.batchPredicate c keyMaps)) := by
  have hne' : keyMaps ≠ [] := by
    rintro rfl
    exact hne (List.subset_nil.1 hsub)
  rw [(h.mono hsub).keys_or_mentions_iff hne, h.keys_or_mentions_iff hne']

end QueryNode

namespace Query

variable {c : Cluster} {q q' : Query} {depth : Nat} {keyMaps keyMaps' : List KeyMap}
  {rows rows' : List Resource}

/-- What is read for fewer key maps was also read for more of them. -/
theorem answer_subset (hunmixed : q.node.Unmixed c keyMaps) (hsub : keyMaps' ⊆ keyMaps)
    (hne : keyMaps' ≠ [])
    (h : (q.prepare c).answer c (q.node.batchPredicate c keyMaps) = .ok rows)
    (h' : (q.prepare c).answer c (q.node.batchPredicate c keyMaps') = .ok rows') :
    rows' ⊆ rows := by
  obtain ⟨table, htable, rfl⟩ := Store.read_eq_ok h
  obtain ⟨table', htable', rfl⟩ := Store.read_eq_ok h'
  obtain rfl : table' = table := Option.some.inj (htable'.symm.trans htable)
  -- Both answers show the same properties of a row.
  have hids : ∀ id,
      id ∈ table'.answerIds (q.prepare c).node.request (q.node.batchPredicate c keyMaps') ↔
        id ∈ table'.answerIds (q.prepare c).node.request (q.node.batchPredicate c keyMaps) := by
    intro id
    have hmentions := hunmixed.mentions_iff hsub hne id
    rw [prepare_type] at htable
    rw [QueryNode.schema, Store.schema_of_table? htable] at hmentions
    rw [Table.mem_answerIds, Table.mem_answerIds, hmentions]
  rw [Table.restrict_congr hids, Table.restrict_eq_map, Table.restrict_eq_map]
  refine List.map_subset _ fun x hx => ?_
  obtain ⟨hstored, hadmits⟩ := List.mem_filter.1 hx
  exact List.mem_filter.2 ⟨hstored, hunmixed.admits hsub hne hadmits⟩

/-- A node that was read for some key maps can be read for fewer of them, unless an instance that
is required is not stored. -/
theorem readNode_batch_succeedsIff (hunmixed : q.node.Unmixed c keyMaps)
    (hsub : keyMaps' ⊆ keyMaps) (hne : keyMaps' ≠ [])
    (h : (q.prepare c).answer c (q.node.batchPredicate c keyMaps) = .ok rows) :
    ((q.addKeyMaps keyMaps').readNode c (q.node.batchPredicate c keyMaps')).SucceedsIff
      (NamesStored c) := by
  obtain ⟨table, htable, -⟩ := Store.read_eq_ok h
  have hsupported := Store.unsupported_of_read htable h
  rw [prepare_type] at htable
  refine readNode_succeedsIff htable ?_
  rw [prepare_addKeyMaps]
  refine Table.unsupported_of_mentions hsupported fun id hid => ?_
  have hmentions := (hunmixed.mentions_iff hsub hne id).1 (.inr hid)
  rwa [QueryNode.schema, Store.schema_of_table? htable] at hmentions

/-! ## Batches that do not mix -/

mutual

/-- The key maps under which the selected children were asked are unmixed on every level. -/
def unmixed (c : Cluster) : Query → Bool
  | mk _ none => true
  | mk node (some children) => unmixedBeneath c node.selected children

/-- The same of the selected ones among some children. -/
def unmixedBeneath (c : Cluster) (selected : SortedSet String) : List (String × Query) → Bool
  | [] => true
  | (name, child) :: rest =>
    (name ∉ selected ||
        child.node.Unmixed c child.node.keyMaps.toList && child.unmixed c) &&
      unmixedBeneath c selected rest

end

theorem unmixedBeneath_iff {selected : SortedSet String} {children : List (String × Query)} :
    unmixedBeneath c selected children = true ↔ ∀ e ∈ children, e.1 ∈ selected →
      e.2.node.Unmixed c e.2.node.keyMaps.toList ∧ e.2.unmixed c = true := by
  induction children with
  | nil => simp [unmixedBeneath]
  | cons e rest ih =>
    obtain ⟨name, child⟩ := e
    rw [unmixedBeneath, Bool.and_eq_true, ih, List.forall_mem_cons]
    refine and_congr_left fun _ => ?_
    by_cases hname : name ∈ selected
    · simp [hname]
    · simp [hname]

theorem unmixed_iff : q.unmixed c = true ↔ ∀ e ∈ q.selectedChildren,
    e.2.node.Unmixed c e.2.node.keyMaps.toList ∧ e.2.unmixed c = true := by
  obtain ⟨node, _ | children⟩ := q
  · simp [unmixed, selectedChildren, children]
  · rw [unmixed, unmixedBeneath_iff]
    refine forall_congr' fun e => ?_
    rw [mem_selectedChildren, and_imp]
    rfl

mutual

theorem unmixed_settle (c : Cluster) : ∀ (visits : List Visit) (q : Query),
    (q.settle c visits).unmixed c = q.unmixed c
  | visits, mk node none => by
    rw [settle]
    rfl
  | visits, mk node (some children) => by
    obtain ⟨keyMap, h⟩ := lastBindings_eq node visits
    rw [settle, h]
    exact unmixedBeneath_settle c visits node.selected children

theorem unmixedBeneath_settle (c : Cluster) : ∀ (visits : List Visit)
    (selected : SortedSet String) (children : List (String × Query)),
    unmixedBeneath c selected (settleChildren c selected visits children) =
      unmixedBeneath c selected children
  | _, _, [] => rfl
  | visits, selected, (name, child) :: rest => by
    have hrest := unmixedBeneath_settle c visits selected rest
    by_cases hname : name ∈ selected
    · obtain ⟨keyMap, hnode⟩ := child.settle_node_eq c (visitsBeneath c child.node visits)
      have hchild := unmixed_settle c (visitsBeneath c child.node visits) child
      simp only [settleChildren, if_pos hname, unmixedBeneath, hrest, hchild, hnode]
      rfl
    · simp only [settleChildren, if_neg hname, unmixedBeneath, hrest]

end

/-! ## Fewer rows -/

/-- Batches that do not mix pass from a fetched query to its children. -/
theorem unmixed_of_mapSelected {f : Query → Query}
    (h : ((q.asked c keyMaps rows).mapSelected f).unmixed c = true) {e : String × Query}
    (he : e ∈ (q.asked c keyMaps rows).selectedChildren) :
    (f e.2).node.Unmixed c (f e.2).node.keyMaps.toList ∧ (f e.2).unmixed c = true := by
  refine unmixed_iff.1 h (e.1, f e.2) ?_
  rw [selectedChildren_mapSelected]
  exact List.mem_map_of_mem he

theorem asked_rowKeyMaps_subset (hsub : keyMaps' ⊆ keyMaps) {shown shown' : List Resource}
    (hshown : ∀ r ∈ shown', ∃ s ∈ shown, s.Alike r) :
    (q.asked c keyMaps' rows').node.rowKeyMaps c shown' ⊆
      (q.asked c keyMaps rows).node.rowKeyMaps c shown := by
  refine QueryNode.rowKeyMaps_subset (fun m hm => ?_) hshown
  rcases SortedSet.mem_insertMany.1 hm with hold | hnew
  · exact SortedSet.mem_insertMany.2 (.inl hold)
  · exact SortedSet.mem_insertMany.2 (.inr (hsub hnew))

/-- Carrying out a child for fewer key maps reaches its end as well, unless a read requires an
instance that is not stored. -/
theorem Fetched.succeedsIff (h : Fetched c depth keyMaps q q') :
    ∀ {keyMaps' : List KeyMap}, keyMaps' ⊆ keyMaps →
      q'.node.Unmixed c q'.node.keyMaps.toList → q'.unmixed c = true →
        (fetch c depth keyMaps' q).SucceedsIff (NamesStored c) := by
  induction h with
  | idle depth q =>
    intro keyMaps' hsub _ _
    obtain rfl := List.subset_nil.1 hsub
    simp [fetch, Stage.SucceedsIff]
  | @read depth keyMaps q rows f _ hread hbeneath ih =>
    intro keyMaps' hsub hnode hdeeper
    by_cases hne : keyMaps' = []
    · subst hne
      simp [fetch, Stage.SucceedsIff]
    have hunmixed : q.node.Unmixed c keyMaps :=
      .congr (q.asked_predicateFor c keyMaps rows)
        (hnode.mono fun m hm => q.mem_asked_keyMaps c keyMaps rows hm)
    rw [fetch_eq hne]
    refine Stage.succeedsIff_andThen (readNode_batch_succeedsIff hunmixed hsub hne hread)
      fun hdone => ?_
    obtain ⟨rows', hread', hstate⟩ := readNode_done hdone
    rw [prepare_addKeyMaps] at hread' hstate
    have hstate : ((q.addKeyMaps keyMaps').readNode c
        (q.node.batchPredicate c keyMaps')).state = q.asked c keyMaps' rows' := hstate
    have hrows : rows' ⊆ rows := answer_subset hunmixed hsub hne hread hread'
    rw [hstate]
    refine fetchBeneath_succeedsIff fun e he => ?_
    rw [asked_selectedChildren, ← asked_selectedChildren c keyMaps rows] at he
    obtain ⟨hchild, hbelow⟩ := unmixed_of_mapSelected hdeeper he
    exact ih e he (asked_rowKeyMaps_subset hsub fun r hr =>
      Resource.exists_alike_of_mem (hrows (Resource.mem_of_mem_distinct hr))) hchild hbelow

/-! ## A page of a query that succeeds -/

/-- The root of a query that was read can be read again, unless an instance is not stored. -/
theorem readRoot_succeedsIff (h : (q.prepare c).answer c (q.node.predicate c) = .ok rows) :
    (q.readRoot c).SucceedsIff (NamesStored c) := by
  obtain ⟨table, htable, -⟩ := Store.read_eq_ok h
  have hsupported := Store.unsupported_of_read htable h
  rw [prepare_type] at htable
  refine Stage.succeedsIff_andThen (readNode_succeedsIff htable hsupported) fun _ => ?_
  simp [Stage.SucceedsIff]

/-- The rows of a page give no key maps that the whole result does not give. -/
theorem page_rowKeyMaps_subset {page : PageRequest}
    (h : ((q.setPage none).prepare c).answer c (q.node.predicate c) = .ok rows)
    (h' : ((q.setPage (some page)).prepare c).answer c (q.node.predicate c) = .ok rows') :
    let whole := (q.setPage none).asked c [q.node.keyMap] rows
    let paged := (q.setPage (some page)).asked c [q.node.keyMap] rows'
    paged.node.rowKeyMaps c (paged.shownRows c).1 ⊆ whole.node.rowKeyMaps c (whole.shownRows c).1 := by
  have hshown := congrArg Prod.fst (shownRows_asked [q.node.keyMap] h)
  have hshown' := congrArg Prod.fst (shownRows_asked [q.node.keyMap] h')
  have hkeyMaps : ((q.setPage (some page)).asked c [q.node.keyMap] rows').node.keyMaps =
      ((q.setPage none).asked c [q.node.keyMap] rows).node.keyMaps := by
    rw [asked, asked, prepare_setPage, prepare_setPage]
    rfl
  rw [prepare_setPage] at hshown hshown'
  refine QueryNode.rowKeyMaps_subset (fun m hm => hkeyMaps ▸ hm) fun r hr => ⟨r, ?_, .refl r⟩
  rw [hshown'] at hr
  rw [hshown]
  show r ∈ (q.prepare c).node.rowsAlone c q.node.keyMap
  have honPage : r ∈ pageRows (some page) ((q.prepare c).node.rowsAlone c q.node.keyMap) := hr
  exact mem_of_mem_pageRows honPage

/-- If a query succeeds as a whole and its batches do not mix, then a page of it succeeds just when
each of its reads names stored instances, as far as it requires any. -/
theorem execute_page_ok_iff {page : PageRequest} {whole : ExecutionResult}
    (hwhole : ((q.setPage none).execute c depth).outcome = .ok whole)
    (hunmixed : ((q.setPage none).execute c depth).query.unmixed c = true) :
    (∃ paged, ((q.setPage (some page)).execute c depth).outcome = .ok paged) ↔
      ∀ call ∈ ((q.setPage (some page)).execute c depth).calls,
        Predicate.requires call.predicate ≠ [] → NamesStored c call := by
  obtain ⟨rows, f, h, -, -, visits, hquery⟩ := executed_of_ok hwhole
  rw [hquery, unmixed_settle] at hunmixed
  have hanswer : ((q.setPage (some page)).prepare c).answer c (q.node.predicate c) = .ok rows := by
    have hwhole := h.answer
    rw [prepare_setPage] at hwhole ⊢
    exact hwhole
  have hreads : ((q.setPage (some page)).reads c depth).SucceedsIff (NamesStored c) := by
    refine Stage.succeedsIff_andThen (readRoot_succeedsIff hanswer) fun hroot => ?_
    obtain ⟨rows', hanswer', hstate⟩ := readRoot_done hroot
    rw [hstate]
    refine fetchBeneath_succeedsIff fun e he => ?_
    -- The page does not matter for what the root selects.
    have hselected : e ∈ ((q.setPage none).asked c [q.node.keyMap] rows).selectedChildren := by
      rw [asked_selectedChildren, prepare_setPage] at he ⊢
      exact he
    obtain ⟨hchild, hbelow⟩ := unmixed_of_mapSelected hunmixed hselected
    exact (h.beneath e hselected).succeedsIff (page_rowKeyMaps_subset h.answer hanswer') hchild
      hbelow
  rw [exists_ok_iff, execute_calls]
  refine Iff.trans hreads (forall₂_congr fun call _ => ⟨fun hnames _ => hnames, fun hnames => ?_⟩)
  by_cases hrequires : Predicate.requires call.predicate = []
  · exact Store.namesStored_of_requires_eq_nil hrequires
  · exact hnames hrequires

open Datacenter

/-- The racks, and the bindings that leave the rack open but not the host. -/
def hostInAnyRack : KeyMap := anyRack.insert host (.bound "h1")

/-- The query for a host in all racks. -/
def hostInRacks : Query := selectPath twoRacks none ["hosts"] (leaf (.fresh racks hostInAnyRack))

/-- A page with one of the racks. -/
def rackAt (offset : Nat) : PageRequest := ⟨.offsetStart offset, 1, none⟩

theorem firstRack_ok :
    ∃ whole paged, ((hostInRacks.setPage none).execute twoRacks 1).outcome = .ok whole ∧
      ((hostInRacks.setPage none).execute twoRacks 1).query.unmixed twoRacks = true ∧
      (∀ call ∈ ((hostInRacks.setPage (some (rackAt 0))).execute twoRacks 1).calls,
        Predicate.requires call.predicate ≠ [] → NamesStored twoRacks call) ∧
      ((hostInRacks.setPage (some (rackAt 0))).execute twoRacks 1).outcome = .ok paged := by
  have hnames : rowNames ((hostInRacks.setPage none).execute twoRacks 1) =
      [some "r1", some "r2"] := by
    decide +kernel
  have hunmixed : ((hostInRacks.setPage none).execute twoRacks 1).query.unmixed twoRacks = true := by
    decide +kernel
  have hstored : ∀ call ∈ ((hostInRacks.setPage (some (rackAt 0))).execute twoRacks 1).calls,
      Predicate.requires call.predicate ≠ [] → NamesStored twoRacks call := by
    decide +kernel
  obtain ⟨whole, hwhole⟩ := exists_ok_of_rowNames (hnames ▸ List.cons_ne_nil _ _)
  obtain ⟨paged, hpaged⟩ := (execute_page_ok_iff hwhole hunmixed).2 hstored
  exact ⟨whole, paged, hwhole, hunmixed, hstored, hpaged⟩

/-- On the second rack the host is not found, although the query succeeds for both racks. -/
theorem secondRack_refused :
    (∃ whole, ((hostInRacks.setPage none).execute twoRacks 1).outcome = .ok whole) ∧
      ((hostInRacks.setPage none).execute twoRacks 1).query.unmixed twoRacks = true ∧
      ((hostInRacks.setPage (some (rackAt 1))).execute twoRacks 1).outcome =
        .error (.refused (.noSuchResource "Host 'h1' not found")) := by
  have hnames : rowNames ((hostInRacks.setPage none).execute twoRacks 1) =
      [some "r1", some "r2"] := by
    decide +kernel
  refine ⟨exists_ok_of_rowNames (hnames ▸ List.cons_ne_nil _ _), by decide +kernel, ?_⟩
  rw [outcome_eq_error_iff]
  decide +kernel

end Query
end ResourceQuery
