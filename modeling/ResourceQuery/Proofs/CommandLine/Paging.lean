import ResourceQuery.CommandLine.Answer
import ResourceQuery.Proofs.Page.Slice
import ResourceQuery.Proofs.Query.Flat
import ResourceQuery.Proofs.Query.Shape

/-!
# Pages on the command line

The items that are printed under a page size are the slice of that size, at the given offset and
counted from the given end, of the items that are printed without page size and offset.  Without a
size, rows that are sorted are sliced just so, on a page that holds all of them.  Rows that are not
sorted are then all printed, and the offset counts for nothing.
-/

namespace ResourceQuery

/-! ## The items of a collection -/

theorem renderRows_eq_map (rows : List ResultRow) :
    renderRows rows = rows.map ResultRow.render := by
  induction rows with
  | nil => rw [renderRows, List.map_nil]
  | cons row rows ih => rw [renderRows, ih, List.map_cons]

/-- The items of the object of a collection. -/
def Json.items? : Json → Option (List Json)
  | .object fields =>
    match Entries.get? "items" fields with
    | some (.array items) => some items
    | _ => none
  | _ => none

/-- The items are the rendered rows, with and without the number of all rows. -/
theorem ExecutionResult.items?_render {result : ExecutionResult}
    (h : result.tree.isCollection = true) :
    result.render.items? = some (result.tree.rows.map ResultRow.render) := by
  have htree : result.tree.render = .object [("items", .array (renderRows result.tree.rows))] := by
    rw [ResultTree.render, if_pos h]
  rw [← renderRows_eq_map]
  unfold render
  rw [htree]
  cases result.page with
  | none => rfl
  | some page =>
    simp only [Json.items?, Entries.get?_insert]
    rfl

/-- A query for a collection without sub-resources shows the rows of its page, one item each. -/
theorem Query.Flat.items?_render {c : Cluster} {q : Query} {depth : Nat} {result : ExecutionResult}
    (h : q.Flat c) (hopen : q.node.isCollection = true)
    (hexposed : q.node.exposedAsCollection = true)
    (hok : (q.execute c depth).outcome = .ok result) :
    result.render.items? =
      some ((pageRows q.node.page ((q.prepare c).node.rowsAlone c q.node.keyMap)).map fun row =>
        (ResultRow.mk row []).render) := by
  have htree := h.tree_eq hok
  have hcollection : showsCollection q.node q.node.keyMap = true := by
    rw [showsCollection, hexposed, Bool.and_true]
    exact hopen
  have hshown : result.tree.isCollection = true := by
    rw [htree]
    exact hcollection
  rw [ExecutionResult.items?_render hshown, htree]
  simp only [ResultTree.rows, List.map_map]
  rfl

namespace CommandLine

open Query (pageRows)

variable {settings : Settings} {given : Given} {c : Cluster} {size : Option Nat}
  {start : StartingPoint} {sort : Option (List SortKey)} {rows : List Resource}

/-! ## The page that is asked for -/

/-- The page of a size that may be missing: rows that are sorted are then all on one page, and other
rows are on none. -/
def pageOf (size : Option Nat) (start : StartingPoint) (sort : Option (List SortKey)) :
    Option PageRequest :=
  (size <|> sort.map fun _ => unlimited).map (⟨start, ·, sort⟩)

theorem pageRequest_eq_ok_iff {page : Option PageRequest} :
    pageRequest settings given = .ok page ↔ ∃ sort, sortKeys given.sort = .ok sort ∧
      (given.pageSize <|> settings.defaultPageSize) ≠ some 0 ∧
      page = pageOf (given.pageSize <|> settings.defaultPageSize)
        (startingPoint given.offset given.fromEnd) sort := by
  unfold pageRequest
  rw [bind_eq_ok_iff]
  refine exists_congr fun sort => and_congr_right fun _ => ?_
  cases given.pageSize <|> settings.defaultPageSize with
  | none =>
    cases sort with
    | none => simp [pageOf, pure_eq_ok_iff]
    | some keys => simp [pageOf, pure_eq_ok_iff]
  | some n =>
    cases n with
    | zero => simp [throw_ne_ok]
    | succ n => simp [pageOf, pure_eq_ok_iff]

theorem sortKeys_isSome {sort : Option (List SortKey)} (h : sortKeys given.sort = .ok sort) :
    sort.isSome = true ↔ given.sort ≠ [] := by
  unfold sortKeys at h
  split at h
  · rename_i hempty
    cases h
    simpa using hempty
  · rename_i hne
    obtain ⟨keys, -, rfl⟩ := map_eq_ok_iff.1 h
    simpa using hne

/-- A page is a slice of the rows in the order it asks for. -/
theorem pageRows_some (page : PageRequest) (rows : List Resource) :
    pageRows (some page) rows =
      slice (some page.size) page.start.distance page.start.countsBack (page.sorted id rows) := by
  show (page.selectSorted rows).rows = _
  rw [PageRequest.selectSorted_eq, PageRequest.select_eq_slice]

/-- A page that holds every row is only limited by where it starts. -/
theorem pageRows_unlimited {keys : List SortKey} (h : rows.length ≤ unlimited) :
    pageRows (some ⟨start, unlimited, some keys⟩) rows =
      slice none start.distance start.countsBack (sortRows keys rows) := by
  rw [pageRows_some]
  refine slice_of_length_le ?_
  show (sortRows keys rows).length ≤ unlimited
  rwa [sortRows, List.length_mergeSort]

/-- Where there is a page, its rows are the slice of all rows that size and starting point say. -/
theorem pageRows_pageOf (hrows : rows.length ≤ unlimited)
    (hpage : size.isSome = true ∨ sort.isSome = true) :
    pageRows (pageOf size start sort) rows =
      slice size start.distance start.countsBack (pageRows (pageOf none .beginning sort) rows) := by
  cases sort with
  | none =>
    obtain ⟨n, rfl⟩ : ∃ n, size = some n := by simpa [Option.isSome_iff_exists] using hpage
    exact pageRows_some ⟨start, n, none⟩ rows
  | some keys =>
    -- From the first row on, the page that holds every row leaves nothing out.
    have hwhole : pageRows (pageOf none .beginning (some keys)) rows = sortRows keys rows :=
      (pageRows_unlimited hrows).trans (slice_none_eq_self_iff.2 (.inl rfl))
    rw [hwhole]
    cases size with
    | none => exact pageRows_unlimited hrows
    | some n => exact pageRows_some ⟨start, n, some keys⟩ rows

theorem distance_startingPoint (offset : Option Nat) (fromEnd : Bool) :
    (startingPoint offset fromEnd).distance = offset.getD 0 ∧
      (startingPoint offset fromEnd).countsBack = fromEnd := by
  cases offset <;> cases fromEnd <;> exact ⟨rfl, rfl⟩

/-- What is shown of the rows of a page is the slice of what is shown of all rows; without a page
everything is shown. -/
theorem map_pageRows_pageOf {β : Type} (f : Resource → β) (hrows : rows.length ≤ unlimited)
    (offset : Option Nat) (fromEnd : Bool) :
    let items := (pageRows (pageOf size (startingPoint offset fromEnd) sort) rows).map f
    let all := (pageRows (pageOf none .beginning sort) rows).map f
    (¬ (size.isSome = true ∨ sort.isSome = true) → items = all) ∧
      (items = slice size (offset.getD 0) fromEnd all ↔
        (size.isSome = true ∨ sort.isSome = true) ∨ offset.getD 0 = 0 ∨ all = []) := by
  intro items all
  by_cases hpage : size.isSome = true ∨ sort.isSome = true
  · have hslice : items = slice size (offset.getD 0) fromEnd all := by
      obtain ⟨hdistance, hback⟩ := distance_startingPoint offset fromEnd
      calc items = (slice size (startingPoint offset fromEnd).distance
            (startingPoint offset fromEnd).countsBack
            (pageRows (pageOf none .beginning sort) rows)).map f :=
          congrArg (List.map f) (pageRows_pageOf hrows hpage)
        _ = slice size (offset.getD 0) fromEnd all := by rw [hdistance, hback, slice_map]
    exact ⟨fun h => absurd hpage h, iff_of_true hslice (.inl hpage)⟩
  · obtain ⟨hsize, hsort⟩ := not_or.1 hpage
    obtain rfl : size = none := by simpa using hsize
    obtain rfl : sort = none := by simpa using hsort
    have hitems : items = all := rfl
    rw [hitems, or_iff_right hpage, ← slice_none_eq_self_iff]
    exact ⟨fun _ => rfl, eq_comm⟩

/-! ## Building and answering -/

/-- The arguments are judged one after the other. -/
theorem buildQuery_eq : buildQuery settings given c = (do
    let type ← typeNamed c.catalog (given.resource.getD "")
    let keys ← keyMap type given.keys
    let fresh ← (Query.new c type keys).mapError .queryFailed
    let selected ← (given.fields.elim (.ok fresh) (fresh.addFields c)).mapError .queryFailed
    let predicate ← filters given.filters
    let page ← pageRequest settings given
    return (selected.setPredicate predicate).setPage page) := by
  unfold buildQuery
  cases given.fields with
  | none => rfl
  | some fields => rfl

/-- A query is built when all its arguments are understood. -/
theorem buildQuery_eq_ok_iff {query : Query} : buildQuery settings given c = .ok query ↔
    ∃ type keys fresh selected predicate page,
      typeNamed c.catalog (given.resource.getD "") = .ok type ∧
      keyMap type given.keys = .ok keys ∧ Query.new c type keys = .ok fresh ∧
      given.fields.elim (.ok fresh) (fresh.addFields c) = .ok selected ∧
      filters given.filters = .ok predicate ∧ pageRequest settings given = .ok page ∧
      query = (selected.setPredicate predicate).setPage page := by
  simp only [buildQuery_eq, bind_eq_ok_iff, mapError_eq_ok_iff, pure_eq_ok_iff]
  constructor
  · rintro ⟨type, htype, keys, hkeys, fresh, hfresh, selected, hselected, predicate, hpredicate,
      page, hpage, hquery⟩
    exact ⟨type, keys, fresh, selected, predicate, page, htype, hkeys, hfresh, hselected,
      hpredicate, hpage, hquery⟩
  · rintro ⟨type, keys, fresh, selected, predicate, page, htype, hkeys, hfresh, hselected,
      hpredicate, hpage, rfl⟩
    exact ⟨type, htype, keys, hkeys, fresh, hfresh, selected, hselected, predicate, hpredicate,
      page, hpage, rfl⟩

/-- The root of a query that is built is shown as a collection when its type is left open. -/
theorem exposed_of_buildQuery {query : Query} (h : buildQuery settings given c = .ok query) :
    query.node.exposedAsCollection = true := by
  obtain ⟨type, keys, fresh, selected, predicate, page, -, -, hfresh, hselected, -, -, rfl⟩ :=
    buildQuery_eq_ok_iff.1 h
  obtain ⟨definition, -, rfl⟩ := Query.eq_leaf_of_new hfresh
  cases hfields : given.fields with
  | none =>
    rw [hfields] at hselected
    cases hselected
    rfl
  | some fields =>
    have hroot := (Query.SameRoot.selectionClosed c).addFields fields
      (Query.leaf (.fresh definition keys))
    rw [hfields] at hselected
    rw [show Query.addFields c fields _ = .ok selected from hselected] at hroot
    exact hroot.exposed

theorem answerQuery_eq_ok_iff {fixture : Fixture} {value : Json} :
    answerQuery settings given fixture = .ok value ↔ ∃ query result,
      buildQuery settings given fixture.cluster = .ok query ∧
      (query.execute fixture.cluster maxDepth).outcome = .ok result ∧ value = result.render := by
  unfold answerQuery
  rw [bind_eq_ok_iff]
  refine exists_congr fun query => ?_
  rw [exists_and_left]
  refine and_congr_right fun _ => ?_
  split
  · rename_i result hok
    rw [pure_eq_ok_iff]
    constructor
    · exact fun h => ⟨result, hok, h⟩
    · rintro ⟨result', hok', rfl⟩
      rw [Except.ok.inj (hok.symm.trans hok')]
  · rename_i herror
    exact iff_of_false throw_ne_ok fun ⟨_, hok, _⟩ => nomatch herror.symm.trans hok
  · rename_i herror
    exact iff_of_false throw_ne_ok fun ⟨_, hok, _⟩ => nomatch herror.symm.trans hok

/-! ## Without a page -/

/-- The settings without a default for the size of pages. -/
def Settings.withoutPage (s : Settings) : Settings := { s with defaultPageSize := none }

/-- The arguments without what says which rows are on the page. -/
def Given.withoutPage (g : Given) : Given :=
  { g with pageSize := none, offset := none, fromEnd := false }

/-- Without page size and offset the same query is built, with a page that starts at the first
row. -/
theorem buildQuery_withoutPage {query : Query} (h : buildQuery settings given c = .ok query) :
    ∃ sort, (sort.isSome = true ↔ given.sort ≠ []) ∧
      query.node.page = pageOf (given.pageSize <|> settings.defaultPageSize)
        (startingPoint given.offset given.fromEnd) sort ∧
      buildQuery settings.withoutPage given.withoutPage c =
        .ok (query.setPage (pageOf none .beginning sort)) := by
  obtain ⟨type, keys, fresh, selected, predicate, page, htype, hkeys, hfresh, hselected, hpredicate,
    hpage, rfl⟩ := buildQuery_eq_ok_iff.1 h
  obtain ⟨sort, hsort, -, rfl⟩ := pageRequest_eq_ok_iff.1 hpage
  have hwhole : pageRequest settings.withoutPage given.withoutPage =
      .ok (pageOf none .beginning sort) :=
    pageRequest_eq_ok_iff.2 ⟨sort, hsort, nofun, rfl⟩
  exact ⟨sort, sortKeys_isSome hsort, rfl, buildQuery_eq_ok_iff.2 ⟨type, keys, fresh, selected,
    predicate, _, htype, hkeys, hfresh, hselected, hpredicate, hwhole, rfl⟩⟩

/-- There is a page: a size is given or set as the default, or rows are sorted. -/
def HasPage (settings : Settings) (given : Given) : Prop :=
  (given.pageSize <|> settings.defaultPageSize).isSome = true ∨ given.sort ≠ []

instance (settings : Settings) (given : Given) : Decidable (HasPage settings given) :=
  inferInstanceAs (Decidable (_ ∨ _))

/-- A query without sub-resources that is answered under one page is answered under every other one;
the items are the rows of the pages. -/
theorem exists_items_setPage {q : Query} {depth : Nat} {result : ExecutionResult}
    (page : Option PageRequest) (hflat : q.Flat c) (hopen : q.node.isCollection = true)
    (hexposed : q.node.exposedAsCollection = true)
    (hok : (q.execute c depth).outcome = .ok result) :
    ∃ result', ((q.setPage page).execute c depth).outcome = .ok result' ∧
      result'.render.items? = some ((pageRows page
        ((q.prepare c).node.rowsAlone c q.node.keyMap)).map fun row =>
          (ResultRow.mk row []).render) := by
  obtain ⟨rows, f, hexecuted, -⟩ := Query.executed_of_ok hok
  have hpaged : (q.setPage page).Flat c := hflat.setPage
  -- Neither the request nor the predicate reads the page, so the answer is the same.
  have hanswer : ((q.setPage page).prepare c).answer c ((q.setPage page).node.predicate c) =
      .ok rows :=
    (Query.answer_setPage c q page _).trans hexecuted.answer
  obtain ⟨result', hok'⟩ : ∃ result', ((q.setPage page).execute c depth).outcome = .ok result' :=
    hpaged.exists_ok hanswer
  refine ⟨result', hok', ?_⟩
  rw [hpaged.items?_render hopen hexposed hok', Query.prepare_setPage]
  rfl

/-- Of a collection without sub-resources are printed, in so far as there is a page, as many
consecutive items as the size says of those that are printed without page size and offset: behind
the first ones that the offset leaves out, or in front of the last ones.  Without a page all of them
are printed, so that the offset is only obeyed if it is zero or if there are none. -/
theorem items_eq_slice_iff {fixture : Fixture} {query : Query} {value : Json}
    (hbuilt : buildQuery settings given fixture.cluster = .ok query)
    (hopen : query.node.isCollection = true) (hflat : query.Flat fixture.cluster)
    (hrows : (fixture.cluster.store.rows query.node.type).length ≤ unlimited)
    (hanswer : answerQuery settings given fixture = .ok value) :
    ∃ whole all items, answerQuery settings.withoutPage given.withoutPage fixture = .ok whole ∧
      whole.items? = some all ∧ value.items? = some items ∧
      (¬ HasPage settings given → items = all) ∧
      (items = slice (given.pageSize <|> settings.defaultPageSize) (given.offset.getD 0)
          given.fromEnd all ↔
        HasPage settings given ∨ given.offset.getD 0 = 0 ∨ all = []) := by
  obtain ⟨query', result, hbuilt', hok, rfl⟩ := answerQuery_eq_ok_iff.1 hanswer
  obtain rfl : query' = query := Except.ok.inj (hbuilt'.symm.trans hbuilt)
  have hexposed := exposed_of_buildQuery hbuilt
  obtain ⟨sort, hsort, hpage, hwithout⟩ := buildQuery_withoutPage hbuilt
  obtain ⟨whole, hwhole, hall⟩ := exists_items_setPage (pageOf none .beginning sort) hflat hopen
    hexposed hok
  have hitems := hflat.items?_render hopen hexposed hok
  have hlength : ((query'.prepare fixture.cluster).node.rowsAlone fixture.cluster
      query'.node.keyMap).length ≤ unlimited := by
    refine Nat.le_trans (QueryNode.length_rowsAlone_le _ _ _) ?_
    rwa [Query.prepare_type]
  rw [hpage] at hitems
  refine ⟨whole.render, _, _, answerQuery_eq_ok_iff.2 ⟨_, whole, hwithout, hwhole, rfl⟩, hall,
    hitems, ?_⟩
  rw [HasPage, ← hsort]
  exact map_pageRows_pageOf _ hlength given.offset given.fromEnd

open Datacenter

/-- A datacenter with three racks. -/
def threeRacks : Fixture where
  catalog := .ofList [racks, hosts, machines]
  types := .ofList [(rack, ⟨.ofList [(rack, ⟨"name"⟩)], none,
    [(rackRow "r1").properties, (rackRow "r2").properties, (rackRow "r3").properties]⟩)]

/-- The settings with one item on a page. -/
def onePerPage : Settings := { Settings.default with defaultPageSize := some 1 }

/-- The arguments that ask for the racks and leave some of them out at an end. -/
def racksWithout (offset : Nat) (fromEnd : Bool) : Given :=
  { Given.nothing with resource := some "racks", offset := some offset, fromEnd }

/-- The query for a page of the racks. -/
def racksOn (page : Option PageRequest) : Query := (Query.leaf (.fresh racks anyRack)).setPage page

/-- The racks are asked for their keys and read alone. -/
theorem flat_racksOn (page : Option PageRequest) : (racksOn page).Flat threeRacks.cluster := by
  have hpaths : ∀ id ∈ (racksOn none).node.collectionKeys threeRacks.cluster,
      ∀ seg ∈ PropertyId.segments id.text, seg ≠ "" := by
    decide +kernel
  have hapart : (racksOn none).KeysApart threeRacks.cluster := by decide +kernel
  have hkeys : (racksOn none).ProjectsKeys threeRacks.cluster :=
    hapart.projectsKeys fun id hid => PropertyId.parse_of_segments (hpaths id hid)
  exact (Query.Flat.of_projectsKeys hkeys (by decide +kernel) (by decide) rfl).setPage

/-- With one rack on a page, the page in front of the last one. -/
theorem items_eq_slice_iff_racks :
    (racksOn (some ⟨.offsetEnd 1, 1, none⟩)).node.isCollection = true ∧
      buildQuery onePerPage (racksWithout 1 true) threeRacks.cluster =
        .ok (racksOn (some ⟨.offsetEnd 1, 1, none⟩)) ∧
      (racksOn (some ⟨.offsetEnd 1, 1, none⟩)).Flat threeRacks.cluster ∧
      (threeRacks.cluster.store.rows rack).length = 3 ∧
      ∃ value whole items all, answerQuery onePerPage (racksWithout 1 true) threeRacks = .ok value ∧
        answerQuery Settings.default (racksWithout 1 true).withoutPage threeRacks = .ok whole ∧
        value.items? = some items ∧ whole.items? = some all ∧
        items = slice (some 1) 1 true all ∧ all.length = 3 := by
  have hbuilt : buildQuery onePerPage (racksWithout 1 true) threeRacks.cluster =
      .ok (racksOn (some ⟨.offsetEnd 1, 1, none⟩)) := rfl
  obtain ⟨value, hanswer⟩ : ∃ value,
      answerQuery onePerPage (racksWithout 1 true) threeRacks = .ok value := ⟨_, rfl⟩
  have hflat := flat_racksOn (some ⟨.offsetEnd 1, 1, none⟩)
  obtain ⟨whole, all, items, hwhole, hall, hitems, -, hslice⟩ :=
    items_eq_slice_iff hbuilt (by decide) hflat (by decide +kernel) hanswer
  have hlength : all.length = 3 := by
    obtain ⟨whole', all', hwhole', hall', hlength⟩ : ∃ whole' all',
        answerQuery onePerPage.withoutPage (racksWithout 1 true).withoutPage threeRacks =
          .ok whole' ∧ whole'.items? = some all' ∧ all'.length = 3 := ⟨_, _, rfl, rfl, rfl⟩
    obtain rfl := Except.ok.inj (hwhole'.symm.trans hwhole)
    obtain rfl := Option.some.inj (hall'.symm.trans hall)
    exact hlength
  exact ⟨by decide, hbuilt, hflat, by decide +kernel, value, whole, items, all, hanswer, hwhole,
    hitems, hall, hslice.2 (.inl (by decide)), hlength⟩

/-- Without a page the first rack is printed although it is to be left out. -/
theorem racks_offset_ignored :
    buildQuery Settings.default (racksWithout 1 false) threeRacks.cluster = .ok (racksOn none) ∧
      (racksOn none).node.isCollection = true ∧ (racksOn none).Flat threeRacks.cluster ∧
      (threeRacks.cluster.store.schema rack).keyOf? rack = some ⟨"name"⟩ ∧
      ∃ value items, answerQuery Settings.default (racksWithout 1 false) threeRacks = .ok value ∧
        answerQuery Settings.default.withoutPage (racksWithout 1 false).withoutPage threeRacks =
          .ok value ∧
        value.items? = some items ∧ items ≠ slice none 1 false items := by
  obtain ⟨value, items, hanswer, hwhole, hitems, hlength⟩ : ∃ value items,
      answerQuery Settings.default (racksWithout 1 false) threeRacks = .ok value ∧
      answerQuery Settings.default.withoutPage (racksWithout 1 false).withoutPage threeRacks =
        .ok value ∧ value.items? = some items ∧ items.length = 3 := ⟨_, _, rfl, rfl, rfl, rfl⟩
  refine ⟨rfl, by decide, flat_racksOn none, by decide +kernel, value, items, hanswer, hwhole,
    hitems, fun hslice => ?_⟩
  have hrest := congrArg List.length hslice
  rw [slice, List.length_drop, hlength] at hrest
  exact absurd hrest (by decide)

end CommandLine
end ResourceQuery
