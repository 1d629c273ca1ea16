import Mathlib.Data.Finset.Max
import ResourceQuery.Proofs.Query.Effect
import ResourceQuery.Proofs.Query.Repetition
import ResourceQuery.Proofs.Store.Refusal

/-!
# What selecting the keys of a collection changes

Before a collection is read its keys are selected.  They are selected like any other properties, and
so this adds the keys to the properties of the node, and nothing else, as long as every key names a
single property and none of them begins with the name of a child.  A key that begins with the name
of a child is looked for in that child, which is then read as well, and for the properties that the
rest of the key names; and a key that ends in the wildcard selects its category in its place.
-/

namespace ResourceQuery

/-- The property that an id selects of a node itself: the id, or its category if its name is the
wildcard. -/
def PropertyId.Yields (id id' : PropertyId) : Prop :=
  if id.name = wildcard then id.category = some id'.text else id' = id

namespace Query

variable {c : Cluster} {q : Query} {id : PropertyId} {ids : List PropertyId}

/-- Every key of the collection names a single property, and its path does not begin with the name
of a child. -/
def KeysApart (c : Cluster) (q : Query) : Prop :=
  ∀ id ∈ q.node.collectionKeys c, id.name ≠ PropertyId.wildcard ∧
    ∀ e ∈ q.childrenIn c, (PropertyId.segments id.text).head? ≠ some e.1

instance (c : Cluster) (q : Query) : Decidable (q.KeysApart c) :=
  inferInstanceAs (Decidable (∀ id ∈ q.node.collectionKeys c, _ ∧ ∀ e ∈ q.childrenIn c, _))

/-- Selecting the keys of the collection adds them to the properties of the node, and nothing
else. -/
structure ProjectsKeys (c : Cluster) (q : Query) : Prop where
  properties : ∀ id, id ∈ (q.addKeys c).node.propertyIds ↔
    id ∈ q.node.propertyIds ∨ id ∈ q.node.collectionKeys c
  selected : (q.addKeys c).node.selected = q.node.selected
  allProperties : (q.addKeys c).node.allProperties = q.node.allProperties
  beneath : ∀ path ≠ [], (q.addKeys c).nodeAt? c path = q.nodeAt? c path

/-- A node that is prepared with its keys names no more properties that are not exposed, and selects
no more children, than one that is prepared without them; beneath it nothing is different. -/
structure ReadsNoMore (c : Cluster) (q : Query) : Prop where
  unsupported : ∀ table ∈ c.store.table? q.node.type, ∀ p,
    table.unsupported (q.prepare c).node.request p =
      table.unsupported (q.expandDefault c).node.request p
  selected : ∀ name ∈ (q.prepare c).node.selected, name ∈ (q.expandDefault c).node.selected
  beneath : ∀ path ≠ [], (q.prepare c).nodeAt? c path = (q.expandDefault c).nodeAt? c path

/-! ## Keys that are kept apart -/

/-- Children that stay as they are look the same beneath. -/
theorem nodeAt?_of_childrenIn_eq {q' : Query} (h : q'.childrenIn c = q.childrenIn c)
    {path : List String} (hpath : path ≠ []) : q'.nodeAt? c path = q.nodeAt? c path := by
  cases path with
  | nil => exact absurd rfl hpath
  | cons name path => rw [nodeAt?_cons, nodeAt?_cons, h]

theorem childrenIn_expandDefault (q : Query) :
    (q.expandDefault c).childrenIn c = q.childrenIn c := by
  unfold expandDefault
  split <;> rfl

theorem request_expandDefault (q : Query) :
    (q.expandDefault c).node.request = q.node.request := by
  unfold expandDefault
  split <;> rfl

theorem mem_selected_expandDefault {name : String} (h : name ∈ q.node.selected) :
    name ∈ (q.expandDefault c).node.selected := by
  unfold expandDefault
  split
  · exact SortedSet.mem_insertMany.2 (.inl h)
  · exact h

/-- Without keys there is nothing to select. -/
theorem addKeys_of_nil (h : q.node.collectionKeys c = []) : q.addKeys c = q := by
  have hfold : q.addKeys c = (q.node.collectionKeys c).foldl (fun q id => q.addId c id) q := rfl
  rw [hfold, h, List.foldl_nil]

section Apart

variable (hvalid : ∀ id ∈ q.node.collectionKeys c, PropertyId.parse id.text = .ok id)
  (hapart : q.KeysApart c)

include hvalid hapart

/-- The keys are added to the properties of the node, and the children stay. -/
theorem KeysApart.addKeys_eq :
    (q.addKeys c).node = q.node.addProperties (q.node.collectionKeys c) ∧
      (q.addKeys c).childrenIn c = q.childrenIn c := by
  by_cases hnil : q.node.collectionKeys c = []
  · rw [addKeys_of_nil hnil, hnil]
    exact ⟨rfl, rfl⟩
  · have heq : q.addKeys c = (q.materialize c).mapNode (·.addProperties (q.node.collectionKeys c)) :=
      foldl_addId hnil fun id hid => ⟨hvalid id hid, hapart id hid⟩
    rw [heq]
    exact ⟨rfl, rfl⟩

theorem KeysApart.projectsKeys : q.ProjectsKeys c := by
  obtain ⟨hnode, hchildren⟩ := hapart.addKeys_eq hvalid
  constructor
  · intro id
    rw [hnode]
    exact SortedSet.mem_insertMany
  · rw [hnode]
    rfl
  · rw [hnode]
    rfl
  · exact fun path hpath => nodeAt?_of_childrenIn_eq hchildren hpath

/-- Of the keys that a request names none is unsupported. -/
theorem KeysApart.unsupported_addKeys {table : Table}
    (htable : c.store.table? q.node.type = some table) (p : Option Predicate) :
    table.unsupported (q.addKeys c).node.request p = table.unsupported q.node.request p := by
  have hprojects := hapart.projectsKeys hvalid
  refine Table.unsupported_congr fun id hid => ?_
  have hkey : id ∉ q.node.collectionKeys c := by
    intro hmem
    have hvalue := Schema.mem_values_of_mem_keysOf hmem
    rw [QueryNode.schema, Store.schema_of_table? htable] at hvalue
    exact hid hvalue
  unfold QueryNode.request
  rw [hprojects.allProperties]
  simp only
  split
  · rfl
  · rw [hprojects.properties, or_iff_left hkey]

theorem KeysApart.readsNoMore : q.ReadsNoMore c := by
  by_cases hcollection : q.node.isCollection = true
  · have hprojects := hapart.projectsKeys hvalid
    have hprepare : q.prepare c = (q.addKeys c).expandDefault c := by
      rw [prepare, if_pos hcollection]
    constructor
    · intro table htable p
      rw [hprepare, request_expandDefault, request_expandDefault,
        hapart.unsupported_addKeys hvalid htable]
    · intro name hname
      by_cases hnil : q.node.collectionKeys c = []
      · rw [hprepare, addKeys_of_nil hnil] at hname
        exact hname
      · -- The keys that are selected keep the children from being selected unasked.
        obtain ⟨id, hid⟩ := List.exists_mem_of_ne_nil _ hnil
        have hmem : id ∈ (q.addKeys c).node.propertyIds := (hprojects.properties id).2 (.inr hid)
        rw [hprepare, expandDefault_of_mem hmem, hprojects.selected] at hname
        exact mem_selected_expandDefault hname
    · intro path hpath
      rw [hprepare, nodeAt?_of_childrenIn_eq (childrenIn_expandDefault _) hpath,
        nodeAt?_of_childrenIn_eq (childrenIn_expandDefault _) hpath]
      exact hprojects.beneath path hpath
  · have hprepare := prepare_of_not_collection (c := c) hcollection
    constructor
    · intro table _ p
      rw [hprepare]
    · intro name hname
      rwa [hprepare] at hname
    · intro path _
      rw [hprepare]

end Apart

/-! ## Keys that go astray -/

/-- An id that begins with the name of a child selects this child. -/
theorem mem_selected_addId {e : String × Query} (he : e ∈ q.childrenIn c)
    (hhead : (PropertyId.segments id.text).head? = some e.1) :
    e.1 ∈ (q.addId c id).node.selected := by
  have hget : Entries.get? e.1 (q.childrenIn c) ≠ none :=
    Entries.get?_ne_none_iff.2 (List.mem_map_of_mem he)
  obtain ⟨child, hchild⟩ := Option.ne_none_iff_exists'.1 hget
  have hsegments := id.segments_text
  unfold addId addProperty
  cases hcategory : id.category with
  | none =>
    rw [hcategory] at hsegments
    have hname : id.name = e.1 := by
      rw [hsegments] at hhead
      exact Option.some.inj hhead
    simp only [Option.map_none, selectNamed]
    split
    · have hnames : e.1 ∈ (q.childrenIn c).map (·.1) := List.mem_map_of_mem he
      exact SortedSet.mem_insertMany.2 (.inr hnames)
    · rw [id.segments_name, hname]
      simp only [selectPath, hchild]
      exact SortedSet.mem_insert.2 (.inl rfl)
  | some category =>
    rw [hcategory] at hsegments
    obtain ⟨head, rest, hpath⟩ := List.exists_cons_of_ne_nil (PropertyId.segments_ne_nil category)
    have hname : head = e.1 := by
      rw [hsegments, Option.map_some, Option.getD_some, hpath] at hhead
      exact Option.some.inj hhead
    simp only [Option.map_some, hpath, hname, selectNamed, hchild]
    exact SortedSet.mem_insert.2 (.inl rfl)

/-- The wildcard alone selects all properties. -/
theorem allProperties_addId (hname : id.name = PropertyId.wildcard)
    (hcategory : id.category = none) : (q.addId c id).node.allProperties = true := by
  unfold addId addProperty
  rw [hcategory, hname]
  rfl

/-- Behind a category that is no child the wildcard selects the category. -/
theorem addId_of_wildcard {category : String} (hname : id.name = PropertyId.wildcard)
    (hcategory : id.category = some category)
    (hhead : ∀ e ∈ q.childrenIn c, (PropertyId.segments id.text).head? ≠ some e.1) :
    q.addId c id = q.selectLocal c none ⟨category⟩ := by
  obtain ⟨head, rest, hpath⟩ := List.exists_cons_of_ne_nil (PropertyId.segments_ne_nil category)
  have hsegments := id.segments_text
  rw [hcategory, Option.map_some, Option.getD_some, hpath] at hsegments
  have hget : Entries.get? head (q.childrenIn c) = none :=
    get?_head_eq_none hhead (by rw [hsegments]; rfl)
  have htext : pathText (head :: rest) = category := hpath ▸ pathText_segments category
  unfold addId addProperty
  simp only [hcategory, hname, Option.map_some, hpath, selectNamed, hget, if_true, htext]

/-- Neither a child is selected nor everything. -/
def SelectsOwn (q : Query) : Prop :=
  (∀ name, name ∉ q.node.selected) ∧ q.node.allProperties = false

/-- What is selected stays selected. -/
theorem selectsOwn_selectionClosed (c : Cluster) : SelectionClosed c fun q q' =>
    q'.SelectsOwn → q.SelectsOwn where
  refl q h := h
  trans first second h := first (second h)
  selectAll range q h := by cases h.2
  selectLocal range id q h := by
    rw [selectLocal_eq] at h
    exact h
  selectChild _ _ h := ⟨fun name hname => h.1 name (SortedSet.mem_insert.2 (.inr hname)), h.2⟩
  selectChildren q h :=
    ⟨fun name hname => h.1 name (SortedSet.mem_insertMany.2 (.inl hname)), h.2⟩

/-- An id that selects neither a child nor everything does not begin with the name of a child, and
selects a property of the node. -/
theorem SelectsOwn.addId_eq (hvalid : PropertyId.parse id.text = .ok id)
    (h : (q.addId c id).SelectsOwn) :
    (∀ e ∈ q.childrenIn c, (PropertyId.segments id.text).head? ≠ some e.1) ∧
      ∃ id', id.Yields id' ∧ q.addId c id = q.selectLocal c none id' := by
  have hhead : ∀ e ∈ q.childrenIn c, (PropertyId.segments id.text).head? ≠ some e.1 :=
    fun e he hhead => h.1 e.1 (mem_selected_addId he hhead)
  refine ⟨hhead, ?_⟩
  by_cases hname : id.name = PropertyId.wildcard
  · cases hcategory : id.category with
    | none => cases h.2.symm.trans (allProperties_addId hname hcategory)
    | some category =>
      refine ⟨⟨category⟩, ?_, addId_of_wildcard hname hcategory hhead⟩
      rw [PropertyId.Yields, if_pos hname, hcategory]
  · refine ⟨id, ?_, addId_eq_selectLocal hvalid hname hhead⟩
    rw [PropertyId.Yields, if_neg hname]

/-- Ids that select neither a child nor everything select properties that they yield, and no
others. -/
theorem SelectsOwn.foldl_addId (hvalid : ∀ id ∈ ids, PropertyId.parse id.text = .ok id)
    (h : (ids.foldl (fun q id => q.addId c id) q).SelectsOwn) :
    (∀ id ∈ ids, ∀ e ∈ q.childrenIn c, (PropertyId.segments id.text).head? ≠ some e.1) ∧
      ∀ id' ∈ (ids.foldl (fun q id => q.addId c id) q).node.propertyIds,
        id' ∈ q.node.propertyIds ∨ ∃ id ∈ ids, id.Yields id' := by
  induction ids generalizing q with
  | nil => exact ⟨nofun, fun _ h => .inl h⟩
  | cons id ids ih =>
    obtain ⟨hid, hids⟩ := List.forall_mem_cons.1 hvalid
    rw [List.foldl_cons] at h ⊢
    have hkey (q : Query) (id : PropertyId) : (q.addId c id).SelectsOwn → q.SelectsOwn :=
      (selectsOwn_selectionClosed c).addProperty id.category (some id.name) q
    -- Nothing is taken back, so the first id selects no child either.
    have hfirst : (q.addId c id).SelectsOwn :=
      (selectsOwn_selectionClosed c).foldl hkey ids (q.addId c id) h
    obtain ⟨hhead, id₁, hyields, heq⟩ := hfirst.addId_eq hid
    obtain ⟨hheads, honly⟩ := ih hids h
    rw [heq] at hheads honly ⊢
    refine ⟨List.forall_mem_cons.2 ⟨hhead, hheads⟩, fun id' hid' => ?_⟩
    rcases honly id' hid' with hbefore | ⟨id₂, hid₂, hyields₂⟩
    · rcases SortedSet.mem_insert.1 hbefore with rfl | hbefore
      · exact .inr ⟨id, List.mem_cons_self, hyields⟩
      · exact .inl hbefore
    · exact .inr ⟨id₂, List.mem_cons_of_mem id hid₂, hyields₂⟩

/-- Among ids that all are yielded by others of them none ends in the wildcard: the longest such one
is not yielded. -/
theorem name_ne_wildcard_of_yields (h : ∀ id' ∈ ids, ∃ id ∈ ids, id.Yields id') :
    ∀ id ∈ ids, id.name ≠ PropertyId.wildcard := by
  intro id₀ hid₀ hname₀
  obtain ⟨id, hid, hmax⟩ := Finset.exists_max_image
    (ids.filter (·.name = PropertyId.wildcard)).toFinset
    (fun id => (PropertyId.segments id.text).length)
    ⟨id₀, List.mem_toFinset.2 (List.mem_filter.2 ⟨hid₀, decide_eq_true hname₀⟩)⟩
  obtain ⟨hid, hname⟩ := List.mem_filter.1 (List.mem_toFinset.1 hid)
  have hname := of_decide_eq_true hname
  obtain ⟨id', hid', hyields⟩ := h id hid
  unfold PropertyId.Yields at hyields
  split at hyields
  · -- What yields the longest id ends in the wildcard, too, and is longer.
    rename_i hname'
    have hlonger : (PropertyId.segments id'.text).length =
        (PropertyId.segments id.text).length + 1 := by
      rw [id'.segments_text, hyields, Option.map_some, Option.getD_some, List.length_append]
      rfl
    have hle : (PropertyId.segments id'.text).length ≤ (PropertyId.segments id.text).length :=
      hmax id' (List.mem_toFinset.2 (List.mem_filter.2 ⟨hid', decide_eq_true hname'⟩))
    omega
  · rename_i hname'
    exact hname' (hyields ▸ hname)

/-- On a node on which nothing is selected the keys are added, and nothing else happens, only if
they are kept apart. -/
theorem ProjectsKeys.keysApart (hvalid : ∀ id ∈ q.node.collectionKeys c,
      PropertyId.parse id.text = .ok id) (hnothing : q.selectsNothing = true)
    (hall : q.node.allProperties = false) (h : q.ProjectsKeys c) : q.KeysApart c := by
  obtain ⟨hids, hselected⟩ := Bool.and_eq_true_iff.1 hnothing
  rw [SortedSet.isEmpty_iff_forall_not_mem] at hids hselected
  have hown : (q.addKeys c).SelectsOwn := ⟨h.selected ▸ hselected, h.allProperties.trans hall⟩
  obtain ⟨hheads, honly⟩ := SelectsOwn.foldl_addId hvalid hown
  have hyields : ∀ id' ∈ q.node.collectionKeys c,
      ∃ id ∈ q.node.collectionKeys c, id.Yields id' := by
    intro id' hid'
    have hmem : id' ∈ (q.addKeys c).node.propertyIds := (h.properties id').2 (.inr hid')
    exact (honly id' hmem).resolve_left (hids id')
  exact fun id hid => ⟨name_ne_wildcard_of_yields hyields id hid, hheads id hid⟩

/-! ## The keys of a collection -/

/-- If the keys of a collection name single properties, and none of them begins with the name of a
child, then selecting them adds them to the properties of the node and changes nothing else, and
the execution neither selects a child nor names an unsupported property on their account.  On a node
on which nothing is selected there is no other way to have this. -/
theorem addKeys_projectsKeys (hvalid : ∀ id ∈ q.node.collectionKeys c,
      PropertyId.parse id.text = .ok id) :
    (q.KeysApart c → q.ProjectsKeys c ∧ q.ReadsNoMore c) ∧
      (q.selectsNothing = true → q.node.allProperties = false →
        (q.ProjectsKeys c ↔ q.KeysApart c)) := by
  refine ⟨fun hapart => ⟨hapart.projectsKeys hvalid, hapart.readsNoMore hvalid⟩, ?_⟩
  intro hnothing hall
  constructor
  · exact fun hprojects => hprojects.keysApart hvalid hnothing hall
  · exact fun hapart => hapart.projectsKeys hvalid

open Datacenter

/-- The hosts in all racks. -/
def allHosts : Query := leaf (.fresh hosts (anyRack.insert host .unbound))

theorem allHosts_projectsKeys :
    (∀ id ∈ allHosts.node.collectionKeys datacenter, PropertyId.parse id.text = .ok id) ∧
      allHosts.node.collectionKeys datacenter = [⟨"name"⟩, ⟨"name"⟩, ⟨"rack"⟩] ∧
      allHosts.KeysApart datacenter ∧ allHosts.ProjectsKeys datacenter ∧
      allHosts.ReadsNoMore datacenter := by
  have hkeys : allHosts.node.collectionKeys datacenter = [⟨"name"⟩, ⟨"name"⟩, ⟨"rack"⟩] := by
    decide +kernel
  have hpaths : ∀ id ∈ allHosts.node.collectionKeys datacenter,
      ∀ seg ∈ PropertyId.segments id.text, seg ≠ "" := by
    decide +kernel
  have hvalid : ∀ id ∈ allHosts.node.collectionKeys datacenter,
      PropertyId.parse id.text = .ok id :=
    fun id hid => PropertyId.parse_of_segments (hpaths id hid)
  have hapart : allHosts.KeysApart datacenter := by decide +kernel
  obtain ⟨hprojects, hreads⟩ := (addKeys_projectsKeys hvalid).1 hapart
  exact ⟨hvalid, hkeys, hapart, hprojects, hreads⟩

/-- A rack whose key is a label among its hosts, and a host; the hosts have names and racks, but no
labels. -/
def labelledRack : Cluster where
  catalog := .ofList [racks, hosts]
  store := (((((∅ : Store).register rack (.ofList [(rack, ⟨"hosts/label"⟩)])).register host
    (.ofList [(host, ⟨"name"⟩), (rack, ⟨"rack"⟩)])).setSupported host
    (.ofList [⟨"name"⟩, ⟨"rack"⟩])).addRow
    (row rack [("hosts/label", "r1"), ("site", "s1")])).addRow (hostRow "h1" "r1")

/-- The sites of all racks. -/
def rackSites : Query := (leaf (.fresh racks anyRack)).addLocalProperty ⟨"site"⟩

/-- The label is looked for among the hosts, so these are read, and asked for a property that they
do not have. -/
theorem rackSites_not_projectsKeys :
    (∀ id ∈ rackSites.node.collectionKeys labelledRack, PropertyId.parse id.text = .ok id) ∧
      rackSites.node.isCollection = true ∧ ¬ rackSites.ProjectsKeys labelledRack ∧
      ¬ rackSites.ReadsNoMore labelledRack ∧
      (rackSites.execute labelledRack 1).outcome =
        .error (.refused (.unsupportedProperties host [⟨"label"⟩])) := by
  have hpaths : ∀ id ∈ rackSites.node.collectionKeys labelledRack,
      ∀ seg ∈ PropertyId.segments id.text, seg ≠ "" := by
    decide +kernel
  have hselected : "hosts" ∈ (rackSites.addKeys labelledRack).node.selected ∧
      "hosts" ∉ rackSites.node.selected := by
    decide +kernel
  have hprepared : "hosts" ∈ (rackSites.prepare labelledRack).node.selected ∧
      "hosts" ∉ (rackSites.expandDefault labelledRack).node.selected := by
    decide +kernel
  refine ⟨fun id hid => PropertyId.parse_of_segments (hpaths id hid), by decide, fun h => ?_,
    fun h => ?_, ?_⟩
  · exact hselected.2 (h.selected ▸ hselected.1)
  · exact hprepared.2 (h.selected "hosts" hprepared.1)
  · rw [outcome_eq_error_iff]
    decide +kernel

end Query
end ResourceQuery
