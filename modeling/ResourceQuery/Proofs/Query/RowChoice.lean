import ResourceQuery.Proofs.Query.Basis
import ResourceQuery.Proofs.Query.Origin
import ResourceQuery.Proofs.Query.Shape

/-!
# Selecting does not choose the rows

Two queries that are made anew for the same type and bindings, with the same filters and the same
page, can select different properties.  Their rows then differ everywhere, but if both executions
succeed and leave the same children selected, the results have the same shape, and row by row they
stem from the same stored rows.  The comparison goes down both trees at once: twin nodes read for
the same predicates, so they answer with the same stored rows and bind the same key maps beneath
them, and the children under one name are twins again.
-/

namespace ResourceQuery

/-! ## Results that correspond -/

mutual

/-- Two trees have the same shape, and row by row they stem from the same stored rows. -/
inductive TreesMatch (s : Store) : ResultTree → ResultTree → Prop where
  | mk {isCollection : Bool} {properties : SortedMap String String} {rows rows' : List ResultRow}
      (rows_match : RowsMatch s rows rows') :
      TreesMatch s (.mk isCollection properties rows) (.mk isCollection properties rows')

/-- Two lists of rows are equally long, and row by row they match. -/
inductive RowsMatch (s : Store) : List ResultRow → List ResultRow → Prop where
  | nil : RowsMatch s [] []
  | cons {row row' : Resource} {subs subs' : List (String × ResultTree)}
      {rows rows' : List ResultRow} (origin : s.SameOrigin row.type none row row')
      (beneath : NestedMatch s subs subs') (rest : RowsMatch s rows rows') :
      RowsMatch s (.mk row subs :: rows) (.mk row' subs' :: rows')

/-- The trees beneath two rows have the same names, and under each name they match. -/
inductive NestedMatch (s : Store) :
    List (String × ResultTree) → List (String × ResultTree) → Prop where
  | nil : NestedMatch s [] []
  | cons {name : String} {tree tree' : ResultTree} {rest rest' : List (String × ResultTree)}
      (first : TreesMatch s tree tree') (others : NestedMatch s rest rest') :
      NestedMatch s ((name, tree) :: rest) ((name, tree') :: rest')

end

namespace Query

variable {c : Cluster} {q q' : Query} {t : ResourceType} {p : Option Predicate}
  {rows rows' shown shown' : List Resource} {keyMap : KeyMap} {keyMaps : List KeyMap}
  {depth depth' : Nat}

theorem nestedMatch_of_names {s : Store} (tree tree' : Query → ResultTree) :
    ∀ {children children' : List (String × Query)},
      children.map (·.1) = children'.map (·.1) →
      (∀ e ∈ children, ∀ e' ∈ children', e.1 = e'.1 → TreesMatch s (tree e.2) (tree' e'.2)) →
      NestedMatch s (children.map fun e => (e.1, tree e.2))
        (children'.map fun e => (e.1, tree' e.2))
  | [], [], _, _ => .nil
  | [], _ :: _, hnames, _ => by cases hnames
  | _ :: _, [], hnames, _ => by cases hnames
  | (name, child) :: rest, (name', child') :: rest', hnames, htrees => by
    obtain ⟨rfl, hrest⟩ := List.cons.inj hnames
    have hfirst := htrees (name, child) List.mem_cons_self (name, child') List.mem_cons_self rfl
    refine .cons hfirst (nestedMatch_of_names tree tree' hrest fun e he e' he' => ?_)
    exact htrees e (List.mem_cons_of_mem _ he) e' (List.mem_cons_of_mem _ he')

/-- Rows of one origin match if the trees of the selected children do. -/
theorem rowsMatch_expand {nested nested' : KeyMap → Query → ResultTree}
    (hnames : q.selectedChildren.map (·.1) = q'.selectedChildren.map (·.1))
    (hnested : ∀ e ∈ q.selectedChildren, ∀ e' ∈ q'.selectedChildren, e.1 = e'.1 → ∀ rowKeys,
      TreesMatch c.store (nested (e.2.node.bindingsUnder rowKeys) e.2)
        (nested' (e'.2.node.bindingsUnder rowKeys) e'.2))
    (hrows : List.Forall₂ (c.store.SameOrigin t p) rows rows') :
    RowsMatch c.store (q.expand c nested keyMap rows) (q'.expand c nested' keyMap rows') := by
  induction hrows with
  | nil => exact .nil
  | @cons row row' rows rows' hrow _ ih =>
    have horigin : c.store.SameOrigin row.type none row row' := hrow.type.1 ▸ hrow.none
    have hbound : c.rowKeyMap row' keyMap = c.rowKeyMap row keyMap :=
      congrFun (Cluster.rowKeyMap_sameOrigin hrow).symm keyMap
    refine .cons horigin (nestedMatch_of_names
      (fun child => nested (child.node.bindingsUnder (c.rowKeyMap row keyMap)) child)
      (fun child => nested' (child.node.bindingsUnder (c.rowKeyMap row' keyMap)) child)
      hnames fun e he e' he' hname => ?_) ih
    rw [hbound]
    exact hnested e he e' he' hname _

/-! ## What is selected where -/

mutual

/-- The path of every node that is made, with the names that are selected there. -/
def selections : Query → List (List String × SortedSet String)
  | mk node none => [([], node.selected)]
  | mk node (some children) => ([], node.selected) :: selectionsBeneath children

/-- The paths and selected names of some children and of all that is made beneath them. -/
def selectionsBeneath : List (String × Query) → List (List String × SortedSet String)
  | [] => []
  | (name, child) :: rest =>
    (child.selections.map fun (path, selected) => (name :: path, selected)) ++
      selectionsBeneath rest

end

/-- The same children are selected at every node that both queries have made. -/
def SelectAlike (q q' : Query) : Prop :=
  ∀ e ∈ q.selections, ∀ e' ∈ q'.selections, e.1 = e'.1 → e.2 = e'.2

instance (q q' : Query) : Decidable (q.SelectAlike q') :=
  inferInstanceAs (Decidable (∀ e ∈ q.selections, ∀ e' ∈ q'.selections, e.1 = e'.1 → e.2 = e'.2))

theorem selectionsBeneath_eq (children : List (String × Query)) :
    selectionsBeneath children = children.flatMap fun e =>
      e.2.selections.map fun s => (e.1 :: s.1, s.2) := by
  induction children with
  | nil => rw [selectionsBeneath, List.flatMap_nil]
  | cons e rest ih =>
    obtain ⟨name, child⟩ := e
    rw [selectionsBeneath, ih, List.flatMap_cons]

theorem selections_eq (q : Query) : q.selections = ([], q.node.selected) ::
    (q.children.getD []).flatMap fun e =>
      e.2.selections.map fun s => (e.1 :: s.1, s.2) := by
  obtain ⟨node, _ | children⟩ := q
  · rw [selections]
    rfl
  · rw [selections, selectionsBeneath_eq]
    rfl

mutual

/-- The bindings that are left behind do not show in the selections. -/
theorem selections_settle (c : Cluster) : ∀ (visits : List Visit) (q : Query),
    (q.settle c visits).selections = q.selections
  | visits, mk node none => by
    obtain ⟨keyMap, h⟩ := lastBindings_eq node visits
    simp only [settle, h, selections]
  | visits, mk node (some children) => by
    obtain ⟨keyMap, h⟩ := lastBindings_eq node visits
    simp only [settle, h, selections, selectionsBeneath_settleChildren c visits]

theorem selectionsBeneath_settleChildren (c : Cluster) : ∀ (visits : List Visit)
    (selected : SortedSet String) (children : List (String × Query)),
    selectionsBeneath (settleChildren c selected visits children) = selectionsBeneath children
  | _, _, [] => by rw [settleChildren]
  | visits, selected, (name, child) :: rest => by
    have hrest := selectionsBeneath_settleChildren c visits selected rest
    have hchild := selections_settle c (visitsBeneath c child.node visits) child
    by_cases hname : name ∈ selected
    · simp only [settleChildren, if_pos hname, selectionsBeneath, hchild, hrest]
    · simp only [settleChildren, if_neg hname, selectionsBeneath, hrest]

end

namespace SelectAlike

theorem selected (h : q.SelectAlike q') : q.node.selected = q'.node.selected := by
  have hroot (q : Query) : ([], q.node.selected) ∈ q.selections := by
    rw [selections_eq]
    exact List.mem_cons_self
  exact h _ (hroot q) _ (hroot q') rfl

theorem beneath (h : q.SelectAlike q') {e e' : String × Query} (he : e ∈ q.children.getD [])
    (he' : e' ∈ q'.children.getD []) (hname : e.1 = e'.1) : e.2.SelectAlike e'.2 := by
  have hmem {q : Query} {e : String × Query} (he : e ∈ q.children.getD [])
      {s : List String × SortedSet String} (hs : s ∈ e.2.selections) :
      (e.1 :: s.1, s.2) ∈ q.selections := by
    rw [selections_eq]
    exact List.mem_cons_of_mem _ (List.mem_flatMap.2 ⟨e, he, List.mem_map.2 ⟨s, hs, rfl⟩⟩)
  intro s hs s' hs' hpath
  exact h (e.1 :: s.1, s.2) (hmem he hs) (e'.1 :: s'.1, s'.2) (hmem he' hs')
    (congrArg₂ List.cons hname hpath)

end SelectAlike

/-! ## Twins -/

/-- Two queries in order that have the same basis under every path. -/
structure Twins (c : Cluster) (q q' : Query) : Prop where
  basis : q'.along c QueryNode.basis = q.along c QueryNode.basis
  ordered : Ordered q
  ordered' : Ordered q'
  made : SelectsMade q
  made' : SelectsMade q'

namespace Twins

theorem prepare (h : Twins c q q') : Twins c (q.prepare c) (q'.prepare c) where
  basis := (along_prepare c q').trans (h.basis.trans (along_prepare c q).symm)
  ordered := h.ordered.of_changes (.prepare c q)
  ordered' := h.ordered'.of_changes (.prepare c q')
  made := h.made.of_changes (.prepare c q)
  made' := h.made'.of_changes (.prepare c q')

/-- Children of one name are twins again. -/
theorem beneath (h : Twins c q q') {e e' : String × Query} (he : e ∈ q.children.getD [])
    (he' : e' ∈ q'.children.getD []) (hname : e.1 = e'.1) : Twins c e.2 e'.2 where
  basis := by
    have hget {q : Query} (hordered : Ordered q) {e : String × Query}
        (he : e ∈ q.children.getD []) : Entries.get? e.1 (q.childrenIn c) = some e.2 := by
      obtain ⟨node, _ | children⟩ := q
      · cases he
      · exact (Entries.get?_eq_some_iff hordered.sorted).2 he
    exact along_child h.basis (hget h.ordered he) (hname ▸ hget h.ordered' he')
  ordered := h.ordered.beneath he
  ordered' := h.ordered'.beneath he'
  made := h.made.beneath he
  made' := h.made'.beneath he'

theorem place_eq (h : Twins c q q') : q'.node.place = q.node.place :=
  congrArg Prod.fst (view_of_along h.basis)

theorem type_eq (h : Twins c q q') : q'.node.type = q.node.type :=
  congrArg (fun place : Place => place.definition.type) h.place_eq

theorem keyMap_eq (h : Twins c q q') : q'.node.keyMap = q.node.keyMap :=
  congrArg Place.keyMap h.place_eq

theorem keyMaps_eq (h : Twins c q q') : q'.node.keyMaps = q.node.keyMaps :=
  congrArg Place.keyMaps h.place_eq

theorem bindingsUnder (h : Twins c q q') :
    q'.node.bindingsUnder = q.node.bindingsUnder :=
  congrArg SortedMap.extend (congrArg Place.baseKeyMap h.place_eq)

theorem showsCollection (h : Twins c q q') :
    showsCollection q'.node = showsCollection q.node := by
  have hexposed : q'.node.exposedAsCollection = q.node.exposedAsCollection :=
    congrArg Place.exposedAsCollection h.place_eq
  funext keyMap
  rw [Query.showsCollection, Query.showsCollection, h.type_eq, hexposed]

theorem predicateFor (h : Twins c q q') :
    q'.node.predicateFor c = q.node.predicateFor c := by
  have hfilter : q'.node.userPredicate = q.node.userPredicate :=
    congrArg Prod.snd (view_of_along h.basis)
  funext keyMap
  simp only [QueryNode.predicateFor, QueryNode.keyPredicate, QueryNode.boundKeys,
    QueryNode.schema, h.type_eq, hfilter]

/-- Twins that are read for one predicate answer with rows of one origin. -/
theorem answer_sameOrigin (h : Twins c q q') (hkeys : c.store.KeysTellApart)
    (hread : (q.prepare c).answer c p = .ok rows)
    (hread' : (q'.prepare c).answer c p = .ok rows') :
    List.Forall₂ (c.store.SameOrigin q.node.type p) (Resource.distinct rows)
      (Resource.distinct rows') := by
  rw [answer, prepare_type] at hread hread'
  rw [h.type_eq] at hread'
  exact Store.read_sameOrigin hkeys hread hread'

theorem showsCollection_asked (h : Twins c q q') (keyMaps : List KeyMap)
    (rows rows' : List Resource) : Query.showsCollection (q'.asked c keyMaps rows').node =
      Query.showsCollection (q.asked c keyMaps rows).node := by
  funext keyMap
  rw [Query.showsCollection_asked, Query.showsCollection_asked, h.showsCollection]

/-- After rows of one origin are read, the same key maps come up beneath those that are shown. -/
theorem rowKeyMaps_asked (h : Twins c q q') (keyMaps : List KeyMap) (rows rows' : List Resource)
    (hshown : List.Forall₂ (c.store.SameOrigin t p) shown shown') :
    (q'.asked c keyMaps rows').node.rowKeyMaps c shown' =
      (q.asked c keyMaps rows).node.rowKeyMaps c shown :=
  Cluster.rowKeyMaps_sameOrigin
    (congrArg (SortedSet.insertMany · keyMaps) h.prepare.keyMaps_eq) hshown

/-- Twins show matching rows if they show rows of one origin, and beneath these the trees of their
selected children match. -/
theorem rowsMatch {f f' : Query → Query} {batch : List KeyMap} (h : Twins c q q')
    (hfetched : ∀ e ∈ (q.asked c keyMaps rows).selectedChildren,
      Fetched c depth batch e.2 (f e.2))
    (hfetched' : ∀ e ∈ (q'.asked c keyMaps rows').selectedChildren,
      Fetched c depth' batch e.2 (f' e.2))
    (hnested : ∀ e ∈ (q.asked c keyMaps rows).selectedChildren,
      ∀ e' ∈ (q'.asked c keyMaps rows').selectedChildren, Twins c e.2 e'.2 →
        (f e.2).SelectAlike (f' e'.2) → ∀ keyMap,
          TreesMatch c.store ((f e.2).nestedTree c keyMap) ((f' e'.2).nestedTree c keyMap))
    (hselect : ((q.asked c keyMaps rows).mapSelected f).SelectAlike
      ((q'.asked c keyMaps rows').mapSelected f'))
    (hshown : List.Forall₂ (c.store.SameOrigin t p) shown shown') :
    RowsMatch c.store (((q.asked c keyMaps rows).mapSelected f).resultRows c keyMap shown)
      (((q'.asked c keyMaps rows').mapSelected f').resultRows c keyMap shown') := by
  have hprepared := h.prepare
  have hnames : (q.prepare c).selectedChildren.map (·.1) =
      (q'.prepare c).selectedChildren.map (·.1) := by
    have hselected : (q.prepare c).node.selected = (q'.prepare c).node.selected :=
      hselect.selected
    rw [selectedChildren_names hprepared.made hprepared.ordered,
      selectedChildren_names hprepared.made' hprepared.ordered', hselected]
  rw [resultRows_eq, resultRows_eq, expand_mapSelected fun e he => (hfetched e he).bindingsUnder,
    expand_mapSelected fun e he => (hfetched' e he).bindingsUnder]
  refine rowsMatch_expand hnames (fun e he e' he' hname rowKeys => ?_) hshown
  have htwins : Twins c e.2 e'.2 :=
    hprepared.beneath (mem_selectedChildren.1 he).1 (mem_selectedChildren.1 he').1 hname
  -- The children after their fetch stand where they stood before.
  have hfetchedAt {q : Query} {f : Query → Query} {e : String × Query}
      (he : e ∈ q.selectedChildren) : (e.1, f e.2) ∈ (q.mapSelected f).children.getD [] := by
    have hmem : (e.1, f e.2) ∈ (q.mapSelected f).selectedChildren := by
      rw [selectedChildren_mapSelected]
      exact List.mem_map_of_mem he
    exact (mem_selectedChildren.1 hmem).1
  have halike : (f e.2).SelectAlike (f' e'.2) :=
    hselect.beneath (hfetchedAt he) (hfetchedAt he') hname
  rw [htwins.bindingsUnder]
  exact hnested e he e' he' htwins halike _

end Twins

/-! ## Two executions -/

/-- What two fetches for the same key maps leave of twins shows matching trees under any bindings,
if the same children are selected. -/
theorem Fetched.treesMatch (hkeys : c.store.KeysTellApart) {x : Query}
    (h : Fetched c depth keyMaps q x) : ∀ {depth' : Nat} {q' x' : Query},
      Fetched c depth' keyMaps q' x' → Twins c q q' → x.SelectAlike x' →
      ∀ keyMap, TreesMatch c.store (x.nestedTree c keyMap) (x'.nestedTree c keyMap) := by
  induction h with
  | idle depth q =>
    intro depth' q' x' h' htwins _ keyMap
    cases h' with
    | idle =>
      have hnested (q : Query) : (q.withRows []).nestedTree c keyMap =
          .mk (Query.showsCollection q.node keyMap) nestedProperties [] := by
        rw [nestedTree, resultRows_eq]
        rfl
      rw [hnested, hnested, htwins.showsCollection]
      exact .mk .nil
    | read _ hne => exact absurd rfl hne
  | @read depth keyMaps q rows f hne hread hbeneath ih =>
    intro depth' q' x' h' htwins hselect keyMap
    cases h' with
    | idle => exact absurd rfl hne
    | @read depth' _ _ rows' f' _ hread' hbeneath' =>
      have hbatch : q'.node.batchPredicate c keyMaps = q.node.batchPredicate c keyMaps := by
        rw [QueryNode.batchPredicate, QueryNode.batchPredicate, htwins.predicateFor]
      rw [hbatch] at hread'
      have hrows := htwins.answer_sameOrigin hkeys hread hread'
      have hkeyMaps := htwins.rowKeyMaps_asked keyMaps rows rows' hrows
      -- Both shares are cut out by one predicate, and the answers show what it looks at.
      have hshare : List.Forall₂ (c.store.SameOrigin q.node.type (q.node.batchPredicate c keyMaps))
          ((q.asked c keyMaps rows).node.share c keyMap)
          ((q'.asked c keyMaps rows').node.share c keyMap) := by
        rw [QueryNode.share, QueryNode.share, asked_predicateFor, asked_predicateFor,
          htwins.predicateFor]
        exact Store.narrow_sameOrigin hrows fun id hid =>
          QueryNode.mem_mentions_of_predicateFor hne keyMap hid
      rw [nestedTree, nestedTree, mapSelected_node, mapSelected_node,
        htwins.showsCollection_asked keyMaps rows rows']
      rw [hkeyMaps] at hbeneath'
      refine .mk (htwins.rowsMatch hbeneath hbeneath' (fun e he e' he' => ?_) hselect hshare)
      intro htwins halike
      exact ih e he (hbeneath' e' he') htwins halike

/-- The roots of twins with one page that is not sorted show rows of one origin, and their pages lie
in the same place. -/
theorem Twins.shownRows_sameOrigin (htwins : Twins c q q') (keyMaps : List KeyMap)
    (hpage : q'.node.page = q.node.page) (hsort : ∀ page ∈ q.node.page, page.sort = none)
    (hrows : List.Forall₂ (c.store.SameOrigin t (q.node.predicate c)) (Resource.distinct rows)
      (Resource.distinct rows')) :
    List.Forall₂ (c.store.SameOrigin t (q.node.predicate c))
        ((q.asked c keyMaps rows).shownRows c).1 ((q'.asked c keyMaps rows').shownRows c).1 ∧
      ((q.asked c keyMaps rows).shownRows c).2 = ((q'.asked c keyMaps rows').shownRows c).2 := by
  have hpredicate (q : Query) (rows : List Resource) :
      (q.asked c keyMaps rows).node.predicate c = q.node.predicate c := by
    rw [QueryNode.predicate, asked_keyMap, asked_predicateFor, QueryNode.predicate]
  have hsame : q'.node.predicate c = q.node.predicate c := by
    rw [QueryNode.predicate, htwins.predicateFor, htwins.keyMap_eq, QueryNode.predicate]
  have hnarrowed : List.Forall₂ (c.store.SameOrigin t (q.node.predicate c))
      (narrow (Resource.distinct rows) (q.node.predicate c))
      (narrow (Resource.distinct rows') (q.node.predicate c)) :=
    Store.narrow_sameOrigin hrows fun id hid => .inr hid
  have hshown (q : Query) (rows : List Resource) :
      (q.asked c keyMaps rows).node.rows = Resource.distinct rows := rfl
  rw [shownRows_eq, shownRows_eq, asked_page, asked_page, hpage, hpredicate, hpredicate, hsame,
    hshown, hshown]
  cases hq : q.node.page with
  | none => exact ⟨hnarrowed, rfl⟩
  | some page =>
    obtain ⟨hcut, hoffset, htotal⟩ :=
      PageRequest.selectSorted_sameOrigin (hsort page hq) hnarrowed
    refine ⟨hcut, ?_⟩
    simp only [Option.map_some, hoffset, htotal]

/-- Two executions of twins with one page that is not sorted: if both succeed and leave the same
children selected, the results match and the pages lie in the same place. -/
theorem Twins.execute_match {result result' : ExecutionResult} (hkeys : c.store.KeysTellApart)
    (htwins : Twins c q q') (hpage : q'.node.page = q.node.page)
    (hsort : ∀ page ∈ q.node.page, page.sort = none)
    (hok : (q.execute c depth).outcome = .ok result)
    (hok' : (q'.execute c depth').outcome = .ok result')
    (hselect : (q.execute c depth).query.SelectAlike (q'.execute c depth').query) :
    TreesMatch c.store result.tree result'.tree ∧ result.page = result'.page := by
  obtain ⟨rows, f, hexecuted, htree, hplace, visits, hquery⟩ := executed_of_ok hok
  obtain ⟨rows', f', hexecuted', htree', hplace', visits', hquery'⟩ := executed_of_ok hok'
  have hselect : (q.executed c rows f).SelectAlike (q'.executed c rows' f') := by
    rw [hquery, hquery', SelectAlike, selections_settle, selections_settle] at hselect
    exact hselect
  have hread' := hexecuted'.answer
  have hbeneath' := hexecuted'.beneath
  rw [QueryNode.predicate, htwins.predicateFor, htwins.keyMap_eq] at hread'
  rw [htwins.keyMap_eq] at hbeneath'
  have hrows := htwins.answer_sameOrigin hkeys hexecuted.answer hread'
  obtain ⟨hshown, hplaces⟩ := htwins.shownRows_sameOrigin [q.node.keyMap] hpage hsort hrows
  rw [htwins.rowKeyMaps_asked [q.node.keyMap] rows rows' hshown] at hbeneath'
  rw [executed] at htree hplace hselect
  rw [executed, htwins.keyMap_eq] at htree' hplace' hselect
  have hpages : result.page = result'.page := by
    rw [hplace, hplace']
    exact hplaces
  refine ⟨?_, hpages⟩
  rw [htree, htree', resultTree, resultTree, mapSelected_node, mapSelected_node, asked_keyMap,
    asked_keyMap, htwins.keyMap_eq, htwins.showsCollection_asked [q.node.keyMap] rows rows']
  refine .mk (htwins.rowsMatch hexecuted.beneath hbeneath' (fun e he e' he' => ?_) hselect hshown)
  intro htwins halike
  exact (hexecuted.beneath e he).treesMatch hkeys (hbeneath' e' he') htwins halike

/-- Queries that are made anew for one type and key map, used in any way but carried out, and
filtered alike are twins. -/
theorem twins_of_runs {type : ResourceType} {start : Query}
    (hnew : Query.new c type keyMap = .ok start) {steps steps' : List (List String × Operation)}
    (hsteps : ∀ step ∈ steps, step.2.executes = false)
    (hsteps' : ∀ step ∈ steps', step.2.executes = false)
    (hfilters : (start.run c steps').1.along c QueryNode.userPredicate =
      (start.run c steps).1.along c QueryNode.userPredicate) :
    Twins c (start.run c steps).1 (start.run c steps').1 where
  basis := along_basis_run hsteps' hsteps hfilters
  ordered := (Ordered.new hnew).of_changes (.run steps)
  ordered' := (Ordered.new hnew).of_changes (.run steps')
  made := (SelectsMade.new hnew).of_changes (.run steps)
  made' := (SelectsMade.new hnew).of_changes (.run steps')

/-- What is selected does not choose the rows: let two queries be made anew for one type and key
map and used in any way but carried out, with the same filter at every node and the same page
without an order, and let the keys tell the stored rows apart.  If both executions succeed and
leave the same children selected, then the results have the same shape, corresponding rows on every
level stem from the same stored row, and the pages have the same offset and total. -/
theorem execute_selections_match {type : ResourceType} {start : Query}
    (hkeys : c.store.KeysTellApart) (hnew : Query.new c type keyMap = .ok start)
    {steps steps' : List (List String × Operation)}
    (hsteps : ∀ step ∈ steps, step.2.executes = false)
    (hsteps' : ∀ step ∈ steps', step.2.executes = false)
    (hq : (start.run c steps).1 = q) (hq' : (start.run c steps').1 = q')
    (hfilters : q'.along c QueryNode.userPredicate = q.along c QueryNode.userPredicate)
    (hpage : q'.node.page = q.node.page) (hsort : ∀ page ∈ q.node.page, page.sort = none)
    {result result' : ExecutionResult}
    (hok : (q.execute c depth).outcome = .ok result)
    (hok' : (q'.execute c depth').outcome = .ok result')
    (hselect : (q.execute c depth).query.SelectAlike (q'.execute c depth').query) :
    TreesMatch c.store result.tree result'.tree ∧ result.page = result'.page := by
  subst hq hq'
  have htwins := twins_of_runs hnew hsteps hsteps' hfilters
  exact htwins.execute_match hkeys hpage hsort hok hok' hselect

open Datacenter

/-- A host in a rack and how busy it is. -/
def loadedHost (name inRack load : String) : Resource :=
  row host [("name", name), ("rack", inRack), ("load", load)]

/-- Two racks on one site, with two hosts that are equally busy and one that is not. -/
def loadedRacks : Cluster :=
  cluster [row rack [("name", "r1"), ("site", "s1")], row rack [("name", "r2"), ("site", "s1")],
    loadedHost "h1" "r1" "2", loadedHost "h2" "r1" "2", loadedHost "h3" "r1" "1"]

/-- The steps that ask for the first rack and the busy hosts in it. -/
def firstRackBusy : List (List String × Operation) :=
  [(["hosts"], .setPredicate (some (.equals ⟨"load"⟩ (.string "2")))),
    ([], .setPage (some ⟨.beginning, 1, none⟩))]

/-- The steps that select the hosts by their keys alone. -/
def selectKeys : List (List String × Operation) := [([], .addProperty (some "hosts") none none)]

/-- The steps that select everything of the racks, and how busy their hosts are. -/
def selectLoads : List (List String × Operation) :=
  [([], .addProperty none (some "*") none), (["hosts"], .addProperty none (some "load") none)]

/-- The query for the racks after some steps that follow those for the first rack. -/
def firstRackQuery (steps : List (List String × Operation)) : Query :=
  ((leaf (.fresh racks anyRack)).run loadedRacks (firstRackBusy ++ steps)).1

theorem firstRackQuery_selections_match :
    loadedRacks.store.KeysTellApart ∧
      ((firstRackQuery selectKeys).execute loadedRacks 1).query.SelectAlike
        ((firstRackQuery selectLoads).execute loadedRacks 1).query ∧
      ∃ result result', ((firstRackQuery selectKeys).execute loadedRacks 1).outcome = .ok result ∧
        ((firstRackQuery selectLoads).execute loadedRacks 1).outcome = .ok result' ∧
        TreesMatch loadedRacks.store result.tree result'.tree ∧ result.page = result'.page := by
  have hnew : Query.new loadedRacks rack anyRack = .ok (leaf (.fresh racks anyRack)) := rfl
  have hkeys : loadedRacks.store.KeysTellApart := by decide +kernel
  have hnames : rowNames ((firstRackQuery selectKeys).execute loadedRacks 1) = [some "r1"] := by
    decide +kernel
  have hnames' : rowNames ((firstRackQuery selectLoads).execute loadedRacks 1) = [some "r1"] := by
    decide +kernel
  have hselect : ((firstRackQuery selectKeys).execute loadedRacks 1).query.SelectAlike
      ((firstRackQuery selectLoads).execute loadedRacks 1).query := by
    decide +kernel
  -- The filters are set before anything is selected, and selecting leaves them alone.
  have hfilters (steps : List (List String × Operation))
      (h : ∀ step ∈ steps, step.2.executes = false ∧ step.2.filters = false) :
      (firstRackQuery steps).along loadedRacks QueryNode.userPredicate =
        ((leaf (.fresh racks anyRack)).run loadedRacks firstRackBusy).1.along loadedRacks
          QueryNode.userPredicate :=
    along_comp Prod.snd (along_run fun step hstep =>
      Operation.along_basis (h step hstep).1 (h step hstep).2)
  obtain ⟨result, hok⟩ := exists_ok_of_rowNames (hnames ▸ List.cons_ne_nil _ _)
  obtain ⟨result', hok'⟩ := exists_ok_of_rowNames (hnames' ▸ List.cons_ne_nil _ _)
  obtain ⟨htrees, hpages⟩ := execute_selections_match hkeys hnew (by decide) (by decide) rfl rfl
    ((hfilters selectLoads (by decide)).trans (hfilters selectKeys (by decide)).symm) rfl
    (by decide) hok hok' hselect
  exact ⟨hkeys, hselect, result, result', hok, hok', htrees, hpages⟩

end Query
end ResourceQuery
