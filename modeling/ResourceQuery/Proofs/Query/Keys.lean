import ResourceQuery.Proofs.Query.Change
import ResourceQuery.Proofs.Query.Course
import ResourceQuery.Proofs.Query.Unfolding

/-!
# Selecting keys

The keys of a collection are selected like any other properties, and so a key whose path begins
with the name of a child would be looked for in that child.  In a keyed cluster no key does: there
selecting the keys only adds properties to the node, and every child selects a property from the
start.
-/

namespace ResourceQuery

/-! ## Keyed clusters -/

theorem Catalog.typed_ofList (definitions : List ResourceDefinition) :
    ∀ e ∈ (Catalog.ofList definitions).byType.entries, e.2.type = e.1 := by
  intro e he
  obtain ⟨d, -, rfl⟩ := List.mem_map.1 (Entries.mem_of_mem_ofList he)
  rfl

namespace Cluster

/-- Every type of the catalog has a key of its own, and every key is a well-formed id that names a
single property of its node. -/
structure Keyed (c : Cluster) : Prop where
  /-- A definition stands under its type, as in every catalog that is made of definitions. -/
  typed : ∀ e ∈ c.catalog.byType.entries, e.2.type = e.1
  own : ∀ d ∈ c.catalog.definitions, (c.store.schema d.type).keyOf? d.type ≠ none
  valid : ∀ d ∈ c.catalog.definitions, ∀ id ∈ (c.store.schema d.type).keys.values,
    PropertyId.parse id.text = .ok id ∧ id.name ≠ PropertyId.wildcard
  /-- The path of a key does not begin with the name of a sub-resource. -/
  apart : ∀ d ∈ c.catalog.definitions, ∀ id ∈ (c.store.schema d.type).keys.values,
    ∀ sub ∈ d.subResources, ∀ d' ∈ c.catalog.definition? sub.type,
      (PropertyId.segments id.text).head? ≠ some (d'.exposedName sub.isCollection)

variable {c : Cluster} {t : ResourceType} {d d' : ResourceDefinition}

theorem mem_definitions (h : c.catalog.definition? t = some d) : d ∈ c.catalog.definitions :=
  SortedMap.mem_values_iff.2 ⟨t, h⟩

theorem Keyed.type_eq (hkeyed : c.Keyed) (h : c.catalog.definition? t = some d) : d.type = t :=
  hkeyed.typed (t, d) (SortedMap.get?_eq_some_iff.1 h)

theorem Keyed.head?_ne (hkeyed : c.Keyed) (hd : d ∈ c.catalog.definitions) {id : PropertyId}
    (hid : id ∈ (c.store.schema d.type).keys.values) {name : String}
    (hname : c.Exposes d name d') : (PropertyId.segments id.text).head? ≠ some name := by
  obtain ⟨sub, hsub, hd', rfl⟩ := hname
  exact hkeyed.apart d hd id hid sub hsub d' hd'

end Cluster

theorem Schema.mem_values_of_mem_keysOf {s : Schema} {types : List ResourceType} {id : PropertyId}
    (h : id ∈ s.keysOf types) : id ∈ s.keys.values := by
  obtain ⟨t, -, hid⟩ := List.mem_filterMap.1 h
  exact SortedMap.mem_values_iff.2 ⟨t, hid⟩

/-- The own key comes first among the keys of a type. -/
theorem Schema.keysOf_ne_nil {s : Schema} {t : ResourceType} (h : s.keyOf? t ≠ none)
    (types : List ResourceType) : s.keysOf (t :: types) ≠ [] := by
  obtain ⟨id, hid⟩ := Option.ne_none_iff_exists'.1 h
  rw [keysOf, List.filterMap_cons, hid]
  exact List.cons_ne_nil id _

/-! ## What selecting a key does -/

namespace Query

variable {c : Cluster} {q : Query} {id : PropertyId} {ids : List PropertyId}

/-- An id whose path begins with no child's name is a property of the node itself. -/
theorem addId_eq_selectLocal (hvalid : PropertyId.parse id.text = .ok id)
    (hname : id.name ≠ PropertyId.wildcard)
    (hhead : ∀ e ∈ q.childrenIn c, (PropertyId.segments id.text).head? ≠ some e.1) :
    q.addId c id = q.selectLocal c none id := by
  have hcourse : q.course c ⟨id.category, some id.name, none⟩ = ⟨[], .property id⟩ :=
    (course_name id.category id.name q).trans (namedCourse_of_apart hvalid hname hhead)
  have htake := select_eq_take (c := c) ⟨id.category, some id.name, none⟩ q
  rw [hcourse] at htake
  exact htake

/-- Ids of properties of the node itself are added to its properties. -/
theorem foldl_addId (hne : ids ≠ []) (hids : ∀ id ∈ ids, PropertyId.parse id.text = .ok id ∧
      id.name ≠ PropertyId.wildcard ∧
      ∀ e ∈ q.childrenIn c, (PropertyId.segments id.text).head? ≠ some e.1) :
    ids.foldl (fun q id => q.addId c id) q = (q.materialize c).mapNode (·.addProperties ids) := by
  induction ids generalizing q with
  | nil => exact absurd rfl hne
  | cons id ids ih =>
    obtain ⟨⟨hvalid, hname, hhead⟩, hrest⟩ := List.forall_mem_cons.1 hids
    rw [List.foldl_cons, addId_eq_selectLocal hvalid hname hhead]
    by_cases hnil : ids = []
    · rw [hnil]
      rfl
    · have hlater : ids.foldl (fun q id => q.addId c id) (q.selectLocal c none id) =
          ((q.selectLocal c none id).materialize c).mapNode (·.addProperties ids) := ih hnil hrest
      exact hlater

/-! ## Queries of keyed clusters -/

/-- The nodes have definitions of the catalog, and the children that are made stand under names
that are exposed and select some property.  Nothing is selected that is not made. -/
inductive Built (c : Cluster) : Query → Prop where
  | intro {q : Query} (known : q.node.definition ∈ c.catalog.definitions)
      (made : q.children = none → q.node.selected = ∅)
      (exposed : ∀ e ∈ q.children.getD [],
        c.Exposes q.node.definition e.1 e.2.node.definition)
      (selects : ∀ e ∈ q.children.getD [], ∃ id, id ∈ e.2.node.propertyIds)
      (beneath : ∀ e ∈ q.children.getD [], Built c e.2) : Built c q

namespace Built

variable {q' : Query} {type : ResourceType} {keyMap : KeyMap}

theorem known (h : Built c q) : q.node.definition ∈ c.catalog.definitions := by
  cases h with
  | intro known => exact known

theorem made (h : Built c q) (hchildren : q.children = none) : q.node.selected = ∅ := by
  cases h with
  | intro _ made => exact made hchildren

theorem exposed (h : Built c q) {e : String × Query} (he : e ∈ q.children.getD []) :
    c.Exposes q.node.definition e.1 e.2.node.definition := by
  cases h with
  | intro _ _ exposed => exact exposed e he

theorem selects (h : Built c q) {e : String × Query} (he : e ∈ q.children.getD []) :
    ∃ id, id ∈ e.2.node.propertyIds := by
  cases h with
  | intro _ _ _ selects => exact selects e he

theorem beneath (h : Built c q) {e : String × Query} (he : e ∈ q.children.getD []) :
    Built c e.2 := by
  cases h with
  | intro _ _ _ _ beneath => exact beneath e he

/-- A node on which nothing is selected needs no children. -/
theorem leaf {node : QueryNode} (hknown : node.definition ∈ c.catalog.definitions)
    (hselected : node.selected = ∅) : Built c (leaf node) :=
  .intro hknown (fun _ => hselected) nofun nofun nofun

theorem new (h : Query.new c type keyMap = .ok q) : Built c q := by
  unfold Query.new at h
  split at h
  · rename_i definition hdefinition
    rw [← Except.ok.inj h]
    exact leaf (Cluster.mem_definitions hdefinition) rfl
  · cases h

/-- The children of a keyed cluster are made with their own keys selected. -/
theorem materialize (hkeyed : c.Keyed) (h : Built c q) : Built c (q.materialize c) := by
  obtain ⟨node, _ | children⟩ := q
  · refine .intro h.known nofun (fun e he => ?_) (fun e he => ?_) fun e he => ?_
    · obtain ⟨sub, hsub, d, hd, rfl⟩ := mem_newChildren he
      exact ⟨sub, hsub, hd, rfl⟩
    · obtain ⟨sub, -, d, hd, rfl⟩ := mem_newChildren he
      have hown := hkeyed.own d (Cluster.mem_definitions hd)
      rw [hkeyed.type_eq hd] at hown
      obtain ⟨id, hid⟩ := List.exists_mem_of_ne_nil _ (Schema.keysOf_ne_nil hown sub.foreignKeys)
      exact ⟨id, SortedSet.mem_insertMany.2 (.inr hid)⟩
    · obtain ⟨sub, -, d, hd, rfl⟩ := mem_newChildren he
      exact leaf (Cluster.mem_definitions hd) rfl
  · exact h

/-- A child can change where it stands. -/
theorem of_child {node : QueryNode} {children children' : List (String × Query)} {name : String}
    {old new : Query} (h : Built c (mk node (some children))) (hold : (name, old) ∈ children)
    (hmem : ∀ e ∈ children', e = (name, new) ∨ e ∈ children) (hchange : Changes c old new)
    (hnew : Built c new) : Built c (mk node (some children')) := by
  refine .intro h.known nofun (fun e he => ?_) (fun e he => ?_) fun e he => ?_
  · rcases hmem e he with rfl | he
    · rw [hchange.definition]
      exact h.exposed hold
    · exact h.exposed he
  · rcases hmem e he with rfl | he
    · obtain ⟨id, hid⟩ := h.selects hold
      exact ⟨id, hchange.properties id hid⟩
    · exact h.selects he
  · rcases hmem e he with rfl | he
    · exact hnew
    · exact h.beneath he

theorem of_changes (hkeyed : c.Keyed) (hchanges : Changes c q q') (h : Built c q) :
    Built c q' := by
  induction hchanges with
  | refl q => exact h
  | trans _ _ ih ih' => exact ih' (ih h)
  | @node node node' children hdefinition hselected _ =>
    have hdefinition : node'.definition = node.definition := hdefinition
    refine .intro ?_ (fun hnone => ?_) (fun e he => ?_) (fun e he => h.selects he)
      fun e he => h.beneath he
    · exact hdefinition ▸ h.known
    · obtain rfl : children = none := hnone
      have hempty : node.selected = ∅ := h.made rfl
      refine SortedSet.ext_mem fun name => iff_of_false (fun hname => ?_) (SortedSet.not_mem_empty _)
      rcases hselected name hname with hbefore | hmade
      · exact SortedSet.not_mem_empty name (hempty ▸ hbefore)
      · cases hmade
    · exact hdefinition ▸ h.exposed he
  | materialize q => exact h.materialize hkeyed
  | insert hget hchange ih =>
    have hold := Entries.mem_of_get? hget
    exact h.of_child hold (fun e he => Entries.mem_insert he) hchange (ih (h.beneath hold))
  | @replace _ before after name old _ hchange ih =>
    have hold : (name, old) ∈ before ++ (name, old) :: after := List.mem_append_cons_self
    exact h.of_child hold (fun e he => mem_of_mem_replace he) hchange (ih (h.beneath hold))

end Built

end Query

/-! ## The keys of a collection -/

/-- The keys that are selected when the node is read as a collection. -/
def QueryNode.collectionKeys (n : QueryNode) (c : Cluster) : List PropertyId :=
  (n.schema c).keysOf (n.type :: n.keyMap.keys)

namespace Query

theorem Built.childrenIn_exposed (hkeyed : c.Keyed) (h : Built c q) {e : String × Query}
    (he : e ∈ q.childrenIn c) : c.Exposes q.node.definition e.1 e.2.node.definition :=
  (h.materialize hkeyed).exposed he

theorem Built.collectionKeys_ne_nil (hkeyed : c.Keyed) (h : Built c q) :
    q.node.collectionKeys c ≠ [] :=
  Schema.keysOf_ne_nil (hkeyed.own q.node.definition h.known) _

/-- In a keyed cluster the keys of a collection are added to the properties of its node. -/
theorem Built.addKeys_eq (hkeyed : c.Keyed) (h : Built c q) : q.addKeys c =
    (q.materialize c).mapNode (·.addProperties (q.node.collectionKeys c)) := by
  refine foldl_addId (h.collectionKeys_ne_nil hkeyed) fun id hid => ?_
  have hvalue := Schema.mem_values_of_mem_keysOf hid
  obtain ⟨hvalid, hname⟩ := hkeyed.valid q.node.definition h.known id hvalue
  exact ⟨hvalid, hname, fun e he =>
    hkeyed.head?_ne h.known hvalue (h.childrenIn_exposed hkeyed he)⟩

end Query
end ResourceQuery
