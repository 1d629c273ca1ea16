import ResourceQuery.Proofs.Json.Agreement
import ResourceQuery.Proofs.PropertyId.Containment
import ResourceQuery.Proofs.ResultTree.Placement

/-!
# Rendering loses nothing

A rendered row holds its property values at the ends of their paths of segments and its
sub-resources under their names.  A value can only get lost there when its path goes through
another one: when a property lies beneath another property, or beneath a name that is the name of a
sub-resource.  Where no row has such properties, everything that is stored in a result tree can be
read off its rendering, row by row and on every level.
-/

namespace ResourceQuery

/-! ## What a rendering has to show -/

/-- The values of a row, with the paths under which they are to be found. -/
def Resource.placed (r : Resource) : List (List String × Json) :=
  r.properties.entries.map fun (id, value) => (PropertyId.segments id.text, value)

mutual

/-- An object shows a row: it holds the values of the row and what shows its sub-resources, and
nothing else. -/
inductive ResultRow.ShownAs : ResultRow → Json → Prop where
  | mk {resource : Resource} {subResources : List (String × ResultTree)}
      {nested : List (List String × Json)} {fields : List (String × Json)}
      (beneath : NestedShownAs subResources nested)
      (places : Places (resource.placed ++ nested) fields) :
      ResultRow.ShownAs (.mk resource subResources) (.object fields)

/-- Values show rows one by one, in order. -/
inductive RowsShownAs : List ResultRow → List Json → Prop where
  | nil : RowsShownAs [] []
  | cons {row : ResultRow} {rows : List ResultRow} {json : Json} {jsons : List Json}
      (first : row.ShownAs json) (rest : RowsShownAs rows jsons) :
      RowsShownAs (row :: rows) (json :: jsons)

/-- A value shows a tree beneath a row: a collection as an array, another tree as its first row or,
without a row, as `null`. -/
inductive ResultTree.ShownBeneathAs : ResultTree → Json → Prop where
  | collection {properties : SortedMap String String} {rows : List ResultRow} {items : List Json}
      (shown : RowsShownAs rows items) :
      ResultTree.ShownBeneathAs (.mk true properties rows) (.array items)
  | single {properties : SortedMap String String} {row : ResultRow} {rows : List ResultRow}
      {json : Json} (shown : row.ShownAs json) :
      ResultTree.ShownBeneathAs (.mk false properties (row :: rows)) json
  | none {properties : SortedMap String String} :
      ResultTree.ShownBeneathAs (.mk false properties []) .null

/-- Values show the sub-resources of a row under their names. -/
inductive NestedShownAs : List (String × ResultTree) → List (List String × Json) → Prop where
  | nil : NestedShownAs [] []
  | cons {name : String} {tree : ResultTree} {json : Json} {rest : List (String × ResultTree)}
      {nested : List (List String × Json)} (first : tree.ShownBeneathAs json)
      (others : NestedShownAs rest nested) :
      NestedShownAs ((name, tree) :: rest) (([name], json) :: nested)

end

/-- A value shows a whole tree: a collection as the `items` of an object, another tree as its first
row or, without a row, as an empty object. -/
inductive ResultTree.ShownAs : ResultTree → Json → Prop where
  | collection {properties : SortedMap String String} {rows : List ResultRow} {items : List Json}
      (shown : RowsShownAs rows items) :
      ResultTree.ShownAs (.mk true properties rows) (.object [("items", .array items)])
  | single {properties : SortedMap String String} {row : ResultRow} {rows : List ResultRow}
      {json : Json} (shown : row.ShownAs json) :
      ResultTree.ShownAs (.mk false properties (row :: rows)) json
  | none {properties : SortedMap String String} :
      ResultTree.ShownAs (.mk false properties []) (.object [])

/-! ## Rows whose values have places of their own -/

/-- No property of the row lies beneath another one or beneath a sub-resource.  The sub-resources
stand in the order of their names, so no two have one name. -/
structure ResultRow.Separate (row : ResultRow) : Prop where
  properties : ∀ id ∈ row.resource.properties.keys, ∀ id' ∈ row.resource.properties.keys,
    id.isWithin id'.text = true → id = id'
  subResources : ∀ id ∈ row.resource.properties.keys, ∀ e ∈ row.subResources,
    (PropertyId.segments id.text).head? ≠ some e.1
  ordered : Entries.Sorted row.subResources

instance (entries : List (String × ResultTree)) : Decidable (Entries.Sorted entries) :=
  inferInstanceAs (Decidable (entries.Pairwise _))

instance (row : ResultRow) : Decidable row.Separate :=
  decidable_of_iff ((∀ id ∈ row.resource.properties.keys, ∀ id' ∈ row.resource.properties.keys,
      id.isWithin id'.text = true → id = id') ∧
    (∀ id ∈ row.resource.properties.keys, ∀ e ∈ row.subResources,
      (PropertyId.segments id.text).head? ≠ some e.1) ∧
    Entries.Sorted row.subResources)
    ⟨fun ⟨h, h', h''⟩ => ⟨h, h', h''⟩, fun ⟨h, h', h''⟩ => ⟨h, h', h''⟩⟩

mutual

/-- The rows of a tree on all levels. -/
def ResultTree.allRows : ResultTree → List ResultRow
  | .mk _ _ rows => rowsAmong rows

/-- Some rows and those beneath them. -/
def rowsAmong : List ResultRow → List ResultRow
  | [] => []
  | .mk resource subResources :: rows =>
    .mk resource subResources :: (rowsBeneath subResources ++ rowsAmong rows)

/-- The rows beneath a row. -/
def rowsBeneath : List (String × ResultTree) → List ResultRow
  | [] => []
  | (_, tree) :: rest => tree.allRows ++ rowsBeneath rest

end

/-- What is rendered of the sub-resources of a row, with the paths to it. -/
def placedBeneath (subResources : List (String × ResultTree)) : List (List String × Json) :=
  subResources.map fun (name, tree) => ([name], tree.renderNested)

theorem renderSubResources_eq (subResources : List (String × ResultTree))
    (fields : List (String × Json)) : renderSubResources fields subResources =
      (placedBeneath subResources).foldl (fun fields e => Resource.insertAt e.2 e.1 fields)
        fields := by
  induction subResources generalizing fields with
  | nil => rw [renderSubResources]; rfl
  | cons e rest ih =>
    obtain ⟨name, tree⟩ := e
    rw [renderSubResources, ih]
    rfl

theorem Resource.render_eq (r : Resource) : r.render =
    r.placed.foldl (fun fields e => Resource.insertAt e.2 e.1 fields) [] := by
  rw [render, placed, List.foldl_map]

namespace ResultRow

open Places

variable {resource : Resource} {subResources : List (String × ResultTree)}

/-- The values of a row and its sub-resources have places of their own. -/
theorem Separate.pairwise_apart (h : (ResultRow.mk resource subResources).Separate) :
    (resource.placed ++ placedBeneath subResources).Pairwise fun e e' => Apart e.1 e'.1 := by
  have hkey {e : PropertyId × Json} (he : e ∈ resource.properties.entries) :
      e.1 ∈ resource.properties.keys := List.mem_map_of_mem he
  refine List.pairwise_append.2 ⟨?_, ?_, ?_⟩
  · refine List.pairwise_map.2 (resource.properties.sorted.imp_of_mem fun {e e'} he he' hlt => ?_)
    have hne : e.1 ≠ e'.1 := fun heq => by simp [heq, Std.ReflCmp.compare_self] at hlt
    constructor
    · intro hprefix
      exact hne (h.properties e'.1 (hkey he') e.1 (hkey he)
        (PropertyId.isWithin_iff_segments.2 hprefix)).symm
    · intro hprefix
      exact hne (h.properties e.1 (hkey he) e'.1 (hkey he')
        (PropertyId.isWithin_iff_segments.2 hprefix))
  · refine List.pairwise_map.2 (List.Pairwise.imp (fun {e e'} hlt => ?_) h.ordered)
    have hne : e.1 ≠ e'.1 := fun heq => by simp [heq, Std.ReflCmp.compare_self] at hlt
    simp [Apart, List.cons_prefix_cons, hne, Ne.symm hne]
  · intro p hp p' hp'
    obtain ⟨e, he, rfl⟩ := List.mem_map.1 hp
    obtain ⟨e', he', rfl⟩ := List.mem_map.1 hp'
    have hhead := h.subResources e.1 (hkey he) e' he'
    obtain ⟨name, rest, hsegments⟩ :=
      List.exists_cons_of_ne_nil (PropertyId.segments_ne_nil e.1.text)
    rw [hsegments, List.head?_cons] at hhead
    have hne : name ≠ e'.1 := fun heq => hhead (congrArg some heq)
    show Apart (PropertyId.segments e.1.text) [e'.1]
    simp [Apart, hsegments, List.cons_prefix_cons, hne, Ne.symm hne]

/-- A row whose values have places of their own is rendered with all of them, and with nothing
else. -/
theorem places_render (h : (mk resource subResources).Separate) :
    Places (resource.placed ++ placedBeneath subResources)
      (renderSubResources resource.render subResources) := by
  have hne : ∀ e ∈ resource.placed ++ placedBeneath subResources, e.1 ≠ [] := by
    intro e he
    rcases List.mem_append.1 he with he | he
    · obtain ⟨p, -, rfl⟩ := List.mem_map.1 he
      exact PropertyId.segments_ne_nil p.1.text
    · obtain ⟨p, -, rfl⟩ := List.mem_map.1 he
      exact List.cons_ne_nil p.1 []
  rw [renderSubResources_eq, Resource.render_eq, ← List.foldl_append]
  exact Places.nil.foldl_insertAt hne h.pairwise_apart

end ResultRow

/-! ## Every level -/

mutual

theorem renderRows_shown : ∀ rows : List ResultRow, (∀ row ∈ rowsAmong rows, row.Separate) →
    RowsShownAs rows (renderRows rows)
  | [], _ => .nil
  | .mk resource subResources :: rows, h => by
    rw [renderRows, ResultRow.render]
    simp only [rowsAmong, List.mem_cons, List.mem_append] at h
    refine .cons (.mk (nestedShown subResources fun row hrow => ?_) ?_)
      (renderRows_shown rows fun row hrow => ?_)
    · exact h row (.inr (.inl hrow))
    · exact ResultRow.places_render (h _ (.inl rfl))
    · exact h row (.inr (.inr hrow))

theorem renderNested_shown : ∀ tree : ResultTree, (∀ row ∈ tree.allRows, row.Separate) →
    tree.ShownBeneathAs tree.renderNested
  | .mk true _ rows, h => .collection (renderRows_shown rows h)
  | .mk false _ [], _ => .none
  | .mk false _ (row :: rows), h =>
    match renderRows_shown (row :: rows) h with
    | .cons first _ => .single first

theorem nestedShown : ∀ subResources : List (String × ResultTree),
    (∀ row ∈ rowsBeneath subResources, row.Separate) →
    NestedShownAs subResources (placedBeneath subResources)
  | [], _ => .nil
  | (_, tree) :: rest, h =>
    .cons (renderNested_shown tree fun row hrow => h row (List.mem_append_left _ hrow))
      (nestedShown rest fun row hrow => h row (List.mem_append_right _ hrow))

end

theorem ResultTree.render_shown (tree : ResultTree)
    (h : ∀ row ∈ tree.allRows, row.Separate) : tree.ShownAs tree.render := by
  obtain ⟨isCollection, properties, rows⟩ := tree
  have hrows : RowsShownAs rows (renderRows rows) := renderRows_shown rows h
  cases isCollection with
  | true => exact .collection hrows
  | false =>
    cases hrows with
    | nil => exact .none
    | cons first _ => exact .single first

/-! ## Equal renderings -/

namespace Json

theorem get?_agreesFields {xs ys : List (String × Json)} (h : agreesFields xs ys = true)
    {name : String} {v w : Json} (hv : Entries.get? name xs = some v)
    (hw : Entries.get? name ys = some w) : v.agrees w = true := by
  induction xs generalizing ys with
  | nil => cases hv
  | cons x xs ih =>
    cases ys with
    | nil => cases hw
    | cons y ys =>
      obtain ⟨l, y⟩ := y
      obtain ⟨k, x⟩ := x
      obtain ⟨⟨rfl, hx⟩, hxs⟩ : (k = l ∧ x.agrees y = true) ∧ agreesFields xs ys = true := by
        simpa [agreesFields] using h
      simp only [Entries.get?] at hv hw
      split at hv
      · rename_i heq
        rw [if_pos heq] at hw
        rw [← Option.some.inj hv, ← Option.some.inj hw]
        exact hx
      · rename_i hne
        rw [if_neg hne] at hw
        exact ih hxs hv hw

/-- In agreeing values agreeing values stand at one path. -/
theorem at?_agrees {x y v w : Json} {path : List String} (h : x.agrees y = true)
    (hv : x.at? path = some v) (hw : y.at? path = some w) : v.agrees w = true := by
  induction path generalizing x y with
  | nil =>
    rw [at?_nil] at hv hw
    rw [← Option.some.inj hv, ← Option.some.inj hw]
    exact h
  | cons name path ih =>
    cases x with
    | object xs =>
      cases y with
      | object ys =>
        obtain ⟨v', hv', hv⟩ := Option.bind_eq_some_iff.1 hv
        obtain ⟨w', hw', hw⟩ := Option.bind_eq_some_iff.1 hw
        have hfields : agreesFields xs ys = true := by simpa [agrees] using h
        exact ih (get?_agreesFields hfields hv' hw') hv hw
      | _ => cases hw
    | _ => cases hv

end Json

namespace ResultRow

variable {row row' : ResultRow} {R : Json → Json → Prop}

/-- Wherever two rows both have a property, its values are related, and wherever they both have a
sub-resource, its renderings are. -/
structure Matches (R : Json → Json → Prop) (row row' : ResultRow) : Prop where
  values : ∀ {id v v'}, row.resource.value? id = some v → row'.resource.value? id = some v' →
    R v v'
  nested : ∀ {name tree tree'}, row.subResource? name = some tree →
    row'.subResource? name = some tree' → R tree.renderNested tree'.renderNested

theorem at?_render_of_value? (h : row.Separate) {id : PropertyId} {v : Json}
    (hv : row.resource.value? id = some v) :
    row.render.at? (PropertyId.segments id.text) = some v := by
  obtain ⟨resource, subResources⟩ := row
  have hmem : (PropertyId.segments id.text, v) ∈ resource.placed :=
    List.mem_map.2 ⟨(id, v), SortedMap.get?_eq_some_iff.1 hv, rfl⟩
  rw [render]
  exact (places_render h).reach _ (List.mem_append_left _ hmem)

theorem at?_render_of_subResource? (h : row.Separate) {name : String} {tree : ResultTree}
    (htree : row.subResource? name = some tree) :
    row.render.at? [name] = some tree.renderNested := by
  obtain ⟨resource, subResources⟩ := row
  have hmem : ([name], tree.renderNested) ∈ placedBeneath subResources :=
    List.mem_map.2 ⟨(name, tree), Entries.mem_of_get? htree, rfl⟩
  rw [render]
  exact (places_render h).reach _ (List.mem_append_right _ hmem)

/-- What two renderings have in common at every path, the rows have in common. -/
theorem matches_of_render (h : row.Separate) (h' : row'.Separate)
    (hrender : ∀ {path v v'}, row.render.at? path = some v → row'.render.at? path = some v' →
      R v v') : row.Matches R row' where
  values hv hv' := hrender (at?_render_of_value? h hv) (at?_render_of_value? h' hv')
  nested ht ht' := hrender (at?_render_of_subResource? h ht) (at?_render_of_subResource? h' ht')

end ResultRow

/-- A result tree whose rows have places of their own for all their values is shown in full by its
rendering.  Rows that are rendered alike have the same values and are rendered alike beneath, and
if their renderings only agree, then so do their values and what is beneath. -/
theorem render_shows_tree (tree : ResultTree) (h : ∀ row ∈ tree.allRows, row.Separate) :
    tree.ShownAs tree.render ∧
      ∀ row ∈ tree.allRows, ∀ row' : ResultRow, row'.Separate →
        (row.render = row'.render → row.Matches (· = ·) row') ∧
        (row.render.agrees row'.render = true → row.Matches (·.agrees · = true) row') := by
  refine ⟨tree.render_shown h, fun row hrow row' h' => ⟨fun heq => ?_, fun hagrees => ?_⟩⟩
  · refine ResultRow.matches_of_render (h row hrow) h' fun hv hv' => ?_
    rw [heq] at hv
    exact Option.some.inj (hv.symm.trans hv')
  · exact ResultRow.matches_of_render (h row hrow) h' fun hv hv' => Json.at?_agrees hagrees hv hv'

/-- A row for a rack, with an object among its values. -/
def rackResource : Resource :=
  ⟨⟨"Rack"⟩, .ofList [(⟨"name"⟩, .string "r1"), (⟨"power/watts"⟩, .ofNat 5),
    (⟨"power/supply"⟩, .object [("watts", .null)]), (⟨"/"⟩, .null)]⟩

/-- A rack with one host, with its first switch and without a room. -/
def rackResult : ResultRow :=
  let host : ResultRow := .mk ⟨⟨"Host"⟩, .ofList [(⟨"name"⟩, .string "h1")]⟩ []
  let switch (name : String) : ResultRow := .mk ⟨⟨"Switch"⟩, .ofList [(⟨"name"⟩, .string name)]⟩ []
  .mk rackResource [("hosts", .mk true ∅ [host]), ("room", .mk false ∅ []),
    ("switch", .mk false ∅ [switch "s1", switch "s2"])]

/-- The same rack under another type. -/
def rackResult' : ResultRow := .mk { rackResource with type := ⟨"Row"⟩ } rackResult.subResources

theorem render_shows_racks :
    (∀ row ∈ (ResultTree.mk true ∅ [rackResult]).allRows, row.Separate) ∧
      rackResult'.Separate ∧ rackResult.render = rackResult'.render ∧
      (ResultTree.mk true ∅ [rackResult]).ShownAs (ResultTree.mk true ∅ [rackResult]).render ∧
      rackResult.Matches (· = ·) rackResult' ∧
      rackResult.Matches (·.agrees · = true) rackResult' := by
  have hrows : ∀ row ∈ (ResultTree.mk true ∅ [rackResult]).allRows, row.Separate := by
    decide +kernel
  have hrow' : rackResult'.Separate := by decide +kernel
  have hrender : rackResult.render = rackResult'.render := rfl
  obtain ⟨hshown, hmatches⟩ := render_shows_tree _ hrows
  obtain ⟨heq, hagrees⟩ := hmatches rackResult (by simp [ResultTree.allRows, rowsAmong, rackResult])
    rackResult' hrow'
  have hagree : rackResult.render.agrees rackResult'.render = true := hrender ▸ Json.agrees_refl _
  exact ⟨hrows, hrow', hrender, hshown, heq hrender, hagrees hagree⟩

end ResourceQuery
