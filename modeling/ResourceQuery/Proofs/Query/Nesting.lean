import ResourceQuery.Proofs.Query.Batch

/-!
# Rows beneath rows

Beneath a row stands the share of a child under the bindings of the row.  It is what a read for
these bindings alone would give, as long as the bindings extend a key map of the batch that amounts
to a predicate.  Where a row has a key of its own and the schema of the child knows it, the bindings
beneath the row again extend such a key map, so the condition passes from every level to the next.
-/

namespace ResourceQuery

/-! ## A read for one key map -/

namespace QueryNode

/-- The rows of the node when it is read for a key map alone: the stored rows that satisfy the
predicate, in stored order, with the properties of the request, each once. -/
def rowsAlone (n : QueryNode) (c : Cluster) (keyMap : KeyMap) : List Resource :=
  match c.store.table? n.type with
  | none => []
  | some table =>
    let p := n.predicateFor c keyMap
    Resource.distinct (table.restrict n.request p (table.matching p))

/-- A predicate asks at least for what a key map asks for: it admits as many rows, and with the
keys it mentions the same properties. -/
structure AsksFor (n : QueryNode) (c : Cluster) (keyMap : KeyMap) (p : Option Predicate) : Prop where
  admits : ∀ x, Predicate.admits (n.predicateFor c keyMap) x = true → Predicate.admits p x = true
  mentions : ∀ id, (id ∈ (n.schema c).keys.values ∨ id ∈ Predicate.mentions p) ↔
    (id ∈ (n.schema c).keys.values ∨ id ∈ Predicate.mentions (n.predicateFor c keyMap))

theorem AsksFor.refl (n : QueryNode) (c : Cluster) (keyMap : KeyMap) :
    n.AsksFor c keyMap (n.predicateFor c keyMap) :=
  ⟨fun _ h => h, fun _ => Iff.rfl⟩

/-- The bindings extend a key map that amounts to a predicate. -/
def Covered (n : QueryNode) (c : Cluster) (keyMaps : List KeyMap) (keyMap : KeyMap) : Prop :=
  ∃ m ∈ keyMaps, keyMap.Extends m ∧ n.predicateFor c m ≠ none

variable {n : QueryNode} {c : Cluster} {keyMaps : List KeyMap} {keyMap : KeyMap}

/-- With the keys of the schema, a key map mentions what the user's filter mentions. -/
theorem keys_or_mentions_iff (m : KeyMap) (id : PropertyId) :
    (id ∈ (n.schema c).keys.values ∨ id ∈ Predicate.mentions (n.predicateFor c m)) ↔
      (id ∈ (n.schema c).keys.values ∨ id ∈ Predicate.mentions n.userPredicate) := by
  rw [mem_mentions_predicateFor]
  constructor
  · rintro (hkey | huser | hkey)
    · exact .inl hkey
    · exact .inr huser
    · exact .inl (n.mem_keys_of_mem_mentions c hkey)
  · rintro (hkey | huser)
    · exact .inl hkey
    · exact .inr (.inl huser)

theorem Covered.asksFor (h : n.Covered c keyMaps keyMap) :
    n.AsksFor c keyMap (n.batchPredicate c keyMaps) := by
  obtain ⟨m, hm, hextends, hne⟩ := h
  refine ⟨fun x hx => ?_, fun id => ?_⟩
  · exact n.admits_batchPredicate_of_mem c hm hne (n.admits_predicateFor_of_extends c hextends hx)
  · -- Up to keys of the schema, which every answer has, both sides mention the user's filter.
    rw [keys_or_mentions_iff]
    constructor
    · rintro (hkey | hbatch)
      · exact .inl hkey
      · obtain ⟨m', -, hid⟩ := n.exists_of_mem_mentions_batchPredicate c hbatch
        exact (keys_or_mentions_iff m' id).1 (.inr hid)
    · rintro (hkey | huser)
      · exact .inl hkey
      · exact .inr (n.mem_mentions_batchPredicate c hm hne huser)

/-- The share of a read for more is what a read for the key map alone gives. -/
theorem AsksFor.narrow_eq {p : Option Predicate} (h : n.AsksFor c keyMap p) {rows : List Resource}
    (hread : c.store.read n.type n.request p = .ok rows) :
    narrow (Resource.distinct rows) (n.predicateFor c keyMap) = n.rowsAlone c keyMap := by
  obtain ⟨table, htable, rfl⟩ := Store.read_eq_ok hread
  have hschema : n.schema c = table.schema := Store.schema_of_table? htable
  have hids : ∀ id, id ∈ table.answerIds n.request p ↔
      id ∈ table.answerIds n.request (n.predicateFor c keyMap) := fun id => by
    have hmentions := h.mentions id
    rw [hschema] at hmentions
    rw [Table.mem_answerIds, Table.mem_answerIds, hmentions]
  rw [Table.narrow_answer hids h.admits, rowsAlone, htable]

end QueryNode

/-! ## Nested types -/

/-- A type is nested by key beneath another: its schema knows the other's key, and the stored rows
of the other have keys of their own. -/
def Cluster.NestsByKey (c : Cluster) (parent child : ResourceType) : Prop :=
  (c.store.schema child).keyOf? parent ≠ none ∧
    ∀ row ∈ c.store.rows parent, c.rowKey? row parent ≠ none

instance (c : Cluster) (parent child : ResourceType) : Decidable (c.NestsByKey parent child) :=
  inferInstanceAs (Decidable (_ ∧ _))

namespace Query

mutual

/-- The types of the nodes of a query, each paired with the types of its selected children. -/
def nestings : Query → List (ResourceType × ResourceType)
  | mk _ none => []
  | mk node (some children) => nestingsOf node.type node.selected children

/-- The pairs that the children of a node give rise to. -/
def nestingsOf (parent : ResourceType) (selected : SortedSet String) :
    List (String × Query) → List (ResourceType × ResourceType)
  | [] => []
  | (name, child) :: rest =>
    if name ∈ selected then
      (parent, child.node.type) :: child.nestings ++ nestingsOf parent selected rest
    else nestingsOf parent selected rest

end

/-- All selected children are nested by key. -/
def NestsByKey (c : Cluster) (q : Query) : Prop := ∀ e ∈ q.nestings, c.NestsByKey e.1 e.2

instance (c : Cluster) (q : Query) : Decidable (q.NestsByKey c) :=
  inferInstanceAs (Decidable (∀ e ∈ q.nestings, c.NestsByKey e.1 e.2))

theorem nestingsOf_eq (parent : ResourceType) (selected : SortedSet String) :
    ∀ children, nestingsOf parent selected children =
      (children.filter fun (name, _) => name ∈ selected).flatMap fun (_, child) =>
        (parent, child.node.type) :: child.nestings
  | [] => by simp [nestingsOf]
  | (name, child) :: rest => by
    have hrest := nestingsOf_eq parent selected rest
    by_cases hname : name ∈ selected
    · simp [nestingsOf, hname, hrest]
    · simp [nestingsOf, hname, hrest]

theorem nestings_eq (q : Query) : q.nestings = q.selectedChildren.flatMap fun (_, child) =>
    (q.node.type, child.node.type) :: child.nestings := by
  obtain ⟨node, _ | children⟩ := q
  · simp [nestings, selectedChildren, children]
  · rw [nestings, nestingsOf_eq]
    rfl

/-- What nesting by key says of the root, and of each selected child. -/
theorem nestsByKey_iff {c : Cluster} {q : Query} : q.NestsByKey c ↔
    ∀ e ∈ q.selectedChildren, c.NestsByKey q.node.type e.2.node.type ∧ e.2.NestsByKey c := by
  simp only [NestsByKey, nestings_eq q, List.mem_flatMap, List.mem_cons]
  constructor
  · intro h e he
    exact ⟨h (q.node.type, e.2.node.type) ⟨e, he, .inl rfl⟩, fun n hn => h n ⟨e, he, .inr hn⟩⟩
  · rintro h n ⟨e, he, rfl | hn⟩
    · exact (h e he).1
    · exact (h e he).2 n hn

/-! ## What is left behind -/

theorem lastBindings_eq (node : QueryNode) (visits : List Visit) :
    ∃ keyMap, lastBindings node visits = { node with keyMap } := by
  unfold lastBindings
  split
  · exact ⟨_, rfl⟩
  · exact ⟨node.keyMap, rfl⟩

theorem settle_node (c : Cluster) (visits : List Visit) (q : Query) :
    (q.settle c visits).node = lastBindings q.node visits := by
  obtain ⟨node, _ | children⟩ := q
  · rw [settle]
    rfl
  · rw [settle]
    rfl

/-- The visits of a query show in the bindings of its root alone. -/
theorem settle_node_eq (c : Cluster) (visits : List Visit) (q : Query) :
    ∃ keyMap, (q.settle c visits).node = { q.node with keyMap } := by
  obtain ⟨keyMap, h⟩ := lastBindings_eq q.node visits
  exact ⟨keyMap, (settle_node c visits q).trans h⟩

theorem settle_type (c : Cluster) (visits : List Visit) (q : Query) :
    (q.settle c visits).node.type = q.node.type := by
  obtain ⟨keyMap, h⟩ := q.settle_node_eq c visits
  rw [h]
  rfl

mutual

theorem nestings_settle (c : Cluster) : ∀ (visits : List Visit) (q : Query),
    (q.settle c visits).nestings = q.nestings
  | visits, mk node none => by simp [settle, nestings]
  | visits, mk node (some children) => by
    obtain ⟨keyMap, h⟩ := lastBindings_eq node visits
    rw [settle, h]
    exact nestingsOf_settleChildren c node.type node.selected visits children

theorem nestingsOf_settleChildren (c : Cluster) (parent : ResourceType)
    (selected : SortedSet String) : ∀ (visits : List Visit) (children : List (String × Query)),
    nestingsOf parent selected (settleChildren c selected visits children) =
      nestingsOf parent selected children
  | visits, [] => by simp [settleChildren]
  | visits, (name, child) :: rest => by
    have hrest := nestingsOf_settleChildren c parent selected visits rest
    have hchild := nestings_settle c (visitsBeneath c child.node visits) child
    by_cases hname : name ∈ selected
    · simp [settleChildren, nestingsOf, hname, hrest, hchild, settle_type]
    · simp [settleChildren, nestingsOf, hname, hrest]

end

/-! ## From a row to the children beneath it -/

variable {c : Cluster} {q : Query} {keyMaps : List KeyMap} {keyMap : KeyMap}
  {p : Option Predicate} {rows : List Resource}

theorem asksFor_prepare (h : q.node.AsksFor c keyMap p) :
    (q.prepare c).node.AsksFor c keyMap p := by
  have hschema : (q.prepare c).node.schema c = q.node.schema c := by simp [QueryNode.schema]
  refine ⟨fun x hx => ?_, fun id => ?_⟩
  · rw [prepare_predicateFor] at hx
    exact h.admits x hx
  · rw [prepare_predicateFor, hschema]
    exact h.mentions id

/-- After a read for more, the share of a node is what a read for the key map alone gives. -/
theorem share_asked (keyMaps : List KeyMap) (h : q.node.AsksFor c keyMap p)
    (hread : (q.prepare c).answer c p = .ok rows) :
    (q.asked c keyMaps rows).node.share c keyMap = (q.prepare c).node.rowsAlone c keyMap := by
  rw [QueryNode.share, asked_predicateFor, ← prepare_predicateFor]
  exact (asksFor_prepare h).narrow_eq hread

theorem rowKey?_ne_none_of_read {t : ResourceType}
    (hread : (q.prepare c).answer c p = .ok rows) (hnests : c.NestsByKey q.node.type t)
    {row : Resource} (hrow : row ∈ rows) :
    row.type = q.node.type ∧ c.rowKey? row row.type ≠ none := by
  obtain ⟨htype, stored, hstored, hvalues⟩ := Store.exists_stored_of_read hread hrow
  rw [prepare_type] at htype hstored hvalues
  have hkeyed := hnests.2 stored hstored
  refine ⟨htype, ?_⟩
  rw [htype]
  simp only [Cluster.rowKey?, Store.type_of_mem_rows hstored] at hkeyed
  simp only [Cluster.rowKey?, htype]
  -- The key of a type is among the properties of every answer, so the read did not drop it.
  cases hid : (c.store.schema q.node.type).keyOf? q.node.type with
  | none => simp [hid] at hkeyed
  | some id =>
    have hvalue := hvalues id (SortedMap.mem_values_iff.2 ⟨_, hid⟩)
    simpa [hid, Resource.key?, hvalue] using hkeyed

/-- The key maps beneath the rows of a node cover what a row binds beneath it. -/
theorem covered_beneath {m : KeyMap} (hm : m ∈ keyMaps) (hextends : keyMap.Extends m)
    (hread : (q.prepare c).answer c p = .ok rows) {shown : List Resource} {row : Resource}
    (hshown : row ∈ shown) (hrow : row ∈ rows)
    (hadmits : Predicate.admits (q.node.predicateFor c keyMap) row = true) {child : QueryNode}
    (hnests : c.NestsByKey q.node.type child.type) :
    child.Covered c ((q.asked c keyMaps rows).node.rowKeyMaps c shown)
      (child.bindingsUnder (c.rowKeyMap row keyMap)) := by
  obtain ⟨htype, hkey⟩ := rowKey?_ne_none_of_read hread hnests hrow
  -- The row contradicts no part of `m`, so `m` is bound to the row among the others.
  have hconflicts : c.conflicts row m = false :=
    q.node.conflicts_eq_false_of_admits c hextends htype hadmits
  refine ⟨c.rowKeyMap row m, ?_, ?_, ?_⟩
  · exact (QueryNode.mem_rowKeyMaps ..).2
      ⟨row, hshown, m, q.mem_asked_keyMaps c keyMaps rows hm, hconflicts, rfl⟩
  · exact (child.bindingsUnder_extends _).trans (c.rowKeyMap_extends row hextends)
  · -- The row's own key is bound, and the schema of the child knows it.
    obtain ⟨key, hkey⟩ := Option.ne_none_iff_exists'.1 hkey
    obtain ⟨id, hid⟩ := Option.ne_none_iff_exists'.1 hnests.1
    have hbound := c.bound?_rowKeyMap_self row hkey m
    have hmem : (id, key) ∈ child.boundKeys c (c.rowKeyMap row m) :=
      (child.mem_boundKeys c).2 ⟨row.type, hbound, by rw [htype]; exact hid⟩
    rw [ne_eq, child.predicateFor_eq_none_iff c]
    rintro ⟨-, hnil⟩
    rw [hnil] at hmem
    cases hmem

/-- Nesting by key passes from a fetched query to the children that were fetched for it. -/
theorem nestsByKey_of_fetched {f : Query → Query} {depth : Nat} {batch : List KeyMap}
    (hnests : ((q.asked c keyMaps rows).mapSelected f).NestsByKey c) {e : String × Query}
    (he : e ∈ (q.asked c keyMaps rows).selectedChildren)
    (hfetched : Fetched c depth batch e.2 (f e.2)) :
    c.NestsByKey q.node.type e.2.node.type ∧ (f e.2).NestsByKey c := by
  have hmem : (e.1, f e.2) ∈ ((q.asked c keyMaps rows).mapSelected f).selectedChildren := by
    rw [selectedChildren_mapSelected]
    exact List.mem_map_of_mem he
  obtain ⟨hkey, hdeeper⟩ := nestsByKey_iff.1 hnests _ hmem
  rw [mapSelected_node, asked_type, hfetched.type] at hkey
  exact ⟨hkey, hdeeper⟩

theorem covered_of_mem_rowsAlone (hcovered : q.node.Covered c keyMaps keyMap)
    (hread : (q.prepare c).answer c (q.node.batchPredicate c keyMaps) = .ok rows)
    {row : Resource} (hrow : row ∈ (q.prepare c).node.rowsAlone c keyMap) {child : QueryNode}
    (hnests : c.NestsByKey q.node.type child.type) :
    child.Covered c ((q.asked c keyMaps rows).node.rowKeyMaps c (Resource.distinct rows))
      (child.bindingsUnder (c.rowKeyMap row keyMap)) := by
  have hshare := share_asked keyMaps hcovered.asksFor hread
  rw [QueryNode.share, asked_predicateFor] at hshare
  -- The row is one of those that were read for all key maps, and belongs to the share.
  rw [← hshare] at hrow
  obtain ⟨hdistinct, hadmits⟩ := mem_narrow.1 hrow
  obtain ⟨m, hm, hextends, _⟩ := hcovered
  exact covered_beneath hm hextends hread hdistinct (Resource.mem_of_mem_distinct hdistinct)
    hadmits hnests

/-! ## The rows of the root -/

/-- The page of some rows, or all of them when no page is asked for. -/
def pageRows (page : Option PageRequest) (rows : List Resource) : List Resource :=
  match page with
  | some page => (page.selectSorted rows).rows
  | none => rows

theorem mem_of_mem_pageRows {page : Option PageRequest} {row : Resource}
    (h : row ∈ pageRows page rows) : row ∈ rows := by
  cases page with
  | none => exact h
  | some page =>
    have hsorted := List.mem_of_mem_drop (List.mem_of_mem_take h)
    cases hsort : page.sort with
    | none => simpa [hsort] using hsorted
    | some keys => simpa [hsort, sortRows] using hsorted

theorem shownRows_eq (c : Cluster) (q : Query) :
    q.shownRows c = (pageRows q.node.page (narrow q.node.rows (q.node.predicate c)),
      q.node.page.map fun page =>
        let cut := page.selectSorted (narrow q.node.rows (q.node.predicate c))
        ⟨cut.offset, cut.total⟩) := by
  unfold shownRows
  cases q.node.page with
  | none => rfl
  | some page => rfl

/-- Which rows are shown is decided by the node alone. -/
theorem shownRows_congr {q' : Query} (h : q'.node = q.node) : q'.shownRows c = q.shownRows c := by
  rw [shownRows_eq, shownRows_eq, h]

theorem narrow_asked (keyMaps : List KeyMap)
    (hread : (q.prepare c).answer c (q.node.predicate c) = .ok rows) :
    narrow (q.asked c keyMaps rows).node.rows ((q.asked c keyMaps rows).node.predicate c) =
      (q.prepare c).node.rowsAlone c q.node.keyMap := by
  rw [QueryNode.predicate, asked_keyMap]
  exact share_asked keyMaps (.refl q.node c q.node.keyMap) hread

/-- The root shows what a read for its bindings gives, or the page of it. -/
theorem shownRows_asked (keyMaps : List KeyMap)
    (hread : (q.prepare c).answer c (q.node.predicate c) = .ok rows) :
    (q.asked c keyMaps rows).shownRows c =
      (pageRows q.node.page ((q.prepare c).node.rowsAlone c q.node.keyMap),
        q.node.page.map fun page =>
          let cut := page.selectSorted ((q.prepare c).node.rowsAlone c q.node.keyMap)
          ⟨cut.offset, cut.total⟩) := by
  rw [shownRows_eq, narrow_asked keyMaps hread, asked_page]

/-- The key maps beneath the rows that the root shows cover what such a row binds beneath it. -/
theorem covered_of_mem_pageRows
    (hread : (q.prepare c).answer c (q.node.predicate c) = .ok rows) {row : Resource}
    (hrow : row ∈ pageRows q.node.page ((q.prepare c).node.rowsAlone c q.node.keyMap))
    {child : QueryNode} (hnests : c.NestsByKey q.node.type child.type) :
    child.Covered c ((q.asked c [q.node.keyMap] rows).node.rowKeyMaps c
        ((q.asked c [q.node.keyMap] rows).shownRows c).1)
      (child.bindingsUnder (c.rowKeyMap row q.node.keyMap)) := by
  have halone := mem_of_mem_pageRows hrow
  rw [← narrow_asked [q.node.keyMap] hread, QueryNode.predicate, asked_keyMap,
    asked_predicateFor] at halone
  obtain ⟨hdistinct, hadmits⟩ := mem_narrow.1 halone
  have hshown : row ∈ ((q.asked c [q.node.keyMap] rows).shownRows c).1 := by
    rw [shownRows_asked _ hread]
    exact hrow
  exact covered_beneath (List.mem_singleton_self _) (.refl _) hread hshown
    (Resource.mem_of_mem_distinct hdistinct) hadmits hnests

/-! ## The trees of what was fetched -/

theorem expand_congr {nested nested' : KeyMap → Query → ResultTree} {rows : List Resource}
    (h : ∀ row ∈ rows, ∀ e ∈ q.selectedChildren,
      nested (e.2.node.bindingsUnder (c.rowKeyMap row keyMap)) e.2 =
        nested' (e.2.node.bindingsUnder (c.rowKeyMap row keyMap)) e.2) :
    q.expand c nested keyMap rows = q.expand c nested' keyMap rows := by
  refine List.map_congr_left fun row hrow => ?_
  refine congrArg (ResultRow.mk row) (List.map_congr_left fun e he => ?_)
  exact congrArg (Prod.mk e.1) (h row hrow e he)

theorem expand_mapSelected {nested : KeyMap → Query → ResultTree} {f : Query → Query}
    (h : ∀ e ∈ q.selectedChildren, ∀ rowKeys,
      (f e.2).node.bindingsUnder rowKeys = e.2.node.bindingsUnder rowKeys)
    (rows : List Resource) :
    (q.mapSelected f).expand c nested keyMap rows =
      q.expand c (fun keyMap child => nested keyMap (f child)) keyMap rows := by
  refine List.map_congr_left fun row _ => ?_
  rw [selectedChildren_mapSelected, List.map_map]
  refine congrArg (ResultRow.mk row) (List.map_congr_left fun e he => ?_)
  simp only [Function.comp_apply, h e he]

theorem showsCollection_asked (keyMaps : List KeyMap) (rows : List Resource) (keyMap : KeyMap) :
    showsCollection (q.asked c keyMaps rows).node keyMap = showsCollection q.node keyMap := by
  have hexposed : (q.prepare c).node.exposedAsCollection = q.node.exposedAsCollection :=
    congrArg NodeRecord.exposedAsCollection (q.prepare_record c)
  rw [showsCollection, asked_type]
  exact congrArg (keyMap.isUnbound q.node.type && ·) hexposed

/-- The tree of a fetched child: its rows are those of a read for the bindings alone, and beneath
them stand the trees of its own fetched children. -/
theorem nestedTree_mapSelected {f : Query → Query} {depth : Nat} {batch : List KeyMap}
    (hcovered : q.node.Covered c keyMaps keyMap)
    (hread : (q.prepare c).answer c (q.node.batchPredicate c keyMaps) = .ok rows)
    (hbeneath : ∀ e ∈ (q.asked c keyMaps rows).selectedChildren,
      Fetched c depth batch e.2 (f e.2)) :
    ((q.asked c keyMaps rows).mapSelected f).nestedTree c keyMap =
      .mk (showsCollection q.node keyMap) nestedProperties ((q.prepare c).expand c
        (fun keyMap child => (f child).nestedTree c keyMap) keyMap
        ((q.prepare c).node.rowsAlone c keyMap)) := by
  rw [nestedTree, resultRows_eq, mapSelected_node, showsCollection_asked,
    share_asked keyMaps hcovered.asksFor hread,
    expand_mapSelected fun e he => (hbeneath e he).bindingsUnder]
  rfl

/-- The tree of an execution: its rows are the page of a read for the bindings of the root alone,
and beneath them stand the trees of the fetched children. -/
theorem Executed.resultTree_eq {f : Query → Query} {depth : Nat}
    (h : Executed c depth q rows f) :
    (q.executed c rows f).resultTree c ((q.executed c rows f).shownRows c).1 =
      .mk (showsCollection q.node q.node.keyMap)
        (rootProperties (showsCollection q.node q.node.keyMap)) ((q.prepare c).expand c
          (fun keyMap child => (f child).nestedTree c keyMap) q.node.keyMap
          (pageRows q.node.page ((q.prepare c).node.rowsAlone c q.node.keyMap))) := by
  have hshown : ((q.executed c rows f).shownRows c).1 =
      pageRows q.node.page ((q.prepare c).node.rowsAlone c q.node.keyMap) :=
    congrArg Prod.fst (shownRows_asked _ h.answer)
  rw [hshown, resultTree, resultRows_eq, executed, mapSelected_node, showsCollection_asked,
    asked_keyMap, expand_mapSelected fun e he => (h.beneath e he).bindingsUnder]
  rfl

end Query
end ResourceQuery
