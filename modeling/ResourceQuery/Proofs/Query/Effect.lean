import ResourceQuery.Proofs.Query.Reordering

/-!
# What a selection changes

A selection goes from child to child and selects something of the node that it reaches.  It changes
the nodes on its way and no other: the node at the end gains what is selected, and every node above
selects its next child and the keys of its bindings.  Nodes that are not made yet count as they
would be made.
-/

namespace ResourceQuery

namespace PropertyId

variable {chain : List String} {id id' : PropertyId}

/-- Names in front of a path are the first of its segments. -/
theorem segments_intercalate_append (hfree : ∀ name ∈ chain, separator ∉ name.toList)
    (text : String) :
    segments (String.intercalate "/" (chain ++ [text])) = chain ++ segments text := by
  induction chain with
  | nil => exact congrArg segments (String.toList_inj.1 (by rw [toList_intercalate]; rfl))
  | cons name chain ih =>
    obtain ⟨hname, hchain⟩ := List.forall_mem_cons.1 hfree
    have hne : chain ++ [text] ≠ [] :=
      List.append_ne_nil_of_right_ne_nil chain (List.cons_ne_nil text [])
    rw [List.cons_append, segments_intercalate_cons hname hne, ih hchain, List.cons_append]

/-- An id whose segments end with those of another id has its name, and a longer category. -/
theorem category_name_of_segments (h : segments id'.text = chain ++ segments id.text) :
    (id'.category.map segments).getD [] = chain ++ (id.category.map segments).getD [] ∧
      id'.name = id.name := by
  rw [segments_text, segments_text, ← List.append_assoc] at h
  obtain ⟨hcategory, hname⟩ := List.append_inj' h rfl
  exact ⟨hcategory, List.singleton_inj.1 hname⟩

end PropertyId

namespace Query

variable {c : Cluster} {f : Query → Query} {q last : Query}
  {chain path front back : List String} {name : String}

/-! ## Nodes under paths -/

/-- The node under a path of names, as it is or as it would be made. -/
def nodeAt? (c : Cluster) (path : List String) (q : Query) : Option QueryNode :=
  (q.reach? c path).map node

theorem nodeAt?_cons (name : String) (path : List String) (q : Query) :
    q.nodeAt? c (name :: path) =
      (Entries.get? name (q.childrenIn c)).bind (nodeAt? c path) := by
  unfold nodeAt?
  rw [reach?]
  cases Entries.get? name (q.childrenIn c) with
  | none => rfl
  | some child => rfl

/-- At the end of a path the change is made. -/
theorem reach?_follow (h : q.reach? c chain = some last) :
    (q.follow c f chain).reach? c chain = some (f last) := by
  induction chain generalizing q with
  | nil => exact congrArg (fun q => some (f q)) (Option.some.inj h)
  | cons name chain ih =>
    obtain ⟨child, hchild, hreach⟩ := reach?_cons_eq_some_iff.1 h
    rw [follow_cons_of_some hchild, reach?, get?_selectChild, if_pos rfl]
    exact ih hreach

/-- Above the end of a path every node selects the next child, and the keys of its bindings. -/
theorem nodeAt?_follow_above (h : q.reach? c (front ++ name :: back) = some last) :
    (q.follow c f (front ++ name :: back)).nodeAt? c front = (q.nodeAt? c front).map fun n =>
      (n.selectSubResource name).addProperties (n.keyIds c) := by
  induction front generalizing q with
  | nil =>
    obtain ⟨child, hchild, -⟩ := reach?_cons_eq_some_iff.1 h
    rw [List.nil_append, follow_cons_of_some hchild]
    rfl
  | cons name' front ih =>
    obtain ⟨child, hchild, hreach⟩ := reach?_cons_eq_some_iff.1 h
    rw [List.cons_append, follow_cons_of_some hchild, nodeAt?_cons, nodeAt?_cons,
      get?_selectChild, if_pos rfl, hchild]
    exact ih hreach

/-- Nodes off the path stay as they are, if the change at its end leaves the children alone. -/
theorem nodeAt?_follow_of_not_prefix (hf : ∀ q, (f q).childrenIn c = q.childrenIn c)
    (hpath : ¬ path <+: chain) : (q.follow c f chain).nodeAt? c path = q.nodeAt? c path := by
  induction chain generalizing path q with
  | nil =>
    cases path with
    | nil => exact absurd List.prefix_rfl hpath
    | cons name path => rw [follow, nodeAt?_cons, nodeAt?_cons, hf]
  | cons name chain ih =>
    cases path with
    | nil => exact absurd List.nil_prefix hpath
    | cons name' path =>
      cases hchild : Entries.get? name (q.childrenIn c) with
      | none => rw [follow_cons_of_none hchild]
      | some child =>
        -- Either the two paths part here, or they both go into this child.
        rw [follow_cons_of_some hchild, nodeAt?_cons, nodeAt?_cons, get?_selectChild]
        by_cases hname : name' = name
        · obtain rfl := hname
          have hbeneath : ¬ path <+: chain := fun h => hpath (List.cons_prefix_cons.2 ⟨rfl, h⟩)
          rw [if_pos rfl, hchild]
          exact ih hbeneath
        · rw [if_neg hname]

/-! ## Paths through children -/

/-- A path that begins with names of children leads to where its rest leads from the last of
them. -/
theorem namedCourse_append (h : q.reach? c chain = some last) (name : String)
    (path : List String) : namedCourse c name (chain ++ path) q =
      ⟨chain ++ (namedCourse c name path last).path, (namedCourse c name path last).aim⟩ := by
  induction chain generalizing q with
  | nil =>
    obtain rfl := Option.some.inj h
    rfl
  | cons head chain ih =>
    obtain ⟨child, hchild, hreach⟩ := reach?_cons_eq_some_iff.1 h
    simp only [List.cons_append, namedCourse, hchild, ih hreach]
    rfl

/-- A field that is written behind a chain of children leads through them, and to a property of
the last one. -/
theorem course_chain {id field : PropertyId} (hfree : ∀ name ∈ chain,
      PropertyId.separator ∉ name.toList) (hfield : field.text = pathText (chain ++ [id.text]))
    (hlast : q.reach? c chain = some last) (hvalid : PropertyId.parse id.text = .ok id)
    (hname : id.name ≠ PropertyId.wildcard)
    (hhead : ∀ e ∈ last.childrenIn c, (PropertyId.segments id.text).head? ≠ some e.1)
    (range : Option TimeRange) :
    q.course c ⟨field.category, some field.name, range⟩ = ⟨chain, .property id⟩ := by
  have hsegments : PropertyId.segments field.text = chain ++ PropertyId.segments id.text := by
    rw [hfield]
    exact PropertyId.segments_intercalate_append hfree id.text
  obtain ⟨hcategory, hsame⟩ := PropertyId.category_name_of_segments hsegments
  rw [course_name, hcategory, hsame, namedCourse_append hlast,
    namedCourse_of_apart hvalid hname hhead, List.append_nil]

/-- A field that is written behind a chain of children is selected of the last of them, with its
range of time; every node above it selects the next child of the chain, and of its properties the
keys of its bindings; and no other node changes. -/
theorem addProperty_changes_chain {id field : PropertyId} (hfree : ∀ name ∈ chain,
      PropertyId.separator ∉ name.toList) (hfield : field.text = pathText (chain ++ [id.text]))
    (hlast : q.reach? c chain = some last) (hvalid : PropertyId.parse id.text = .ok id)
    (hname : id.name ≠ PropertyId.wildcard)
    (hhead : ∀ e ∈ last.childrenIn c, (PropertyId.segments id.text).head? ≠ some e.1)
    (range : Option TimeRange) :
    let q' := q.addProperty c field.category (some field.name) range
    q'.nodeAt? c chain = some { last.node with
        propertyIds := last.node.propertyIds.insert id
        timeRanges := range.elim last.node.timeRanges (last.node.timeRanges.insert id) } ∧
      (∀ front name back, chain = front ++ name :: back →
        q'.nodeAt? c front = (q.nodeAt? c front).map fun n => { n with
          selected := n.selected.insert name
          propertyIds := n.propertyIds.insertMany (n.keyIds c) }) ∧
      ∀ path, ¬ path <+: chain → q'.nodeAt? c path = q.nodeAt? c path := by
  have hcourse := course_chain hfree hfield hlast hvalid hname hhead range
  have hselect : q.addProperty c field.category (some field.name) range =
      q.follow c (selectLocal c range id) chain := by
    have htake := select_eq_take (c := c) ⟨field.category, some field.name, range⟩ q
    rw [hcourse] at htake
    exact htake
  simp only [hselect]
  refine ⟨?_, fun front name back hchain => ?_, fun path hpath => ?_⟩
  · rw [nodeAt?, reach?_follow hlast, selectLocal_eq]
    rfl
  · subst hchain
    exact nodeAt?_follow_above hlast
  · exact nodeAt?_follow_of_not_prefix (fun _ => rfl) hpath

open Datacenter

/-- The load of the virtual machines is selected through the hosts of a rack. -/
theorem addProperty_changes_machines :
    let q : Query := leaf (.fresh racks anyRack)
    let range : Option TimeRange := some ⟨0, some 100, none⟩
    ∃ last, q.reach? datacenter ["hosts", "machines"] = some last ∧
      (∀ name ∈ ["hosts", "machines"], PropertyId.separator ∉ name.toList) ∧
      PropertyId.parse "metrics/load" = .ok ⟨"metrics/load"⟩ ∧
      (∀ e ∈ last.childrenIn datacenter,
        (PropertyId.segments "metrics/load").head? ≠ some e.1) ∧
      let q' := q.addProperty datacenter (some "hosts/machines/metrics") (some "load") range
      q'.nodeAt? datacenter ["hosts", "machines"] = some { last.node with
          propertyIds := last.node.propertyIds.insert ⟨"metrics/load"⟩
          timeRanges := last.node.timeRanges.insert ⟨"metrics/load"⟩ ⟨0, some 100, none⟩ } ∧
        q'.nodeAt? datacenter ["hosts"] = (q.nodeAt? datacenter ["hosts"]).map (fun n =>
          { n with
            selected := n.selected.insert "machines"
            propertyIds := n.propertyIds.insertMany (n.keyIds datacenter) }) ∧
        (q'.nodeAt? datacenter []).map (fun n => (n.selected.toList, n.propertyIds.toList)) =
          some (["hosts"], [⟨"name"⟩]) ∧
        (q'.nodeAt? datacenter ["hosts"]).map (fun n =>
          (n.selected.toList, n.propertyIds.toList)) = some (["machines"], [⟨"name"⟩, ⟨"rack"⟩]) ∧
        (q'.nodeAt? datacenter ["hosts", "machines"]).map (fun n =>
          (n.selected.toList, n.propertyIds.toList, n.timeRanges.entries)) =
          some ([], [⟨"metrics/load"⟩, ⟨"name"⟩], [(⟨"metrics/load"⟩, ⟨0, some 100, none⟩)]) := by
  intro q range
  have hmade : (q.reach? datacenter ["hosts", "machines"]).isSome = true := by decide +kernel
  obtain ⟨last, hlast⟩ := Option.isSome_iff_exists.1 hmade
  have hfree : ∀ name ∈ ["hosts", "machines"], PropertyId.separator ∉ name.toList := by
    decide +kernel
  have hvalid : PropertyId.parse "metrics/load" = .ok ⟨"metrics/load"⟩ :=
    PropertyId.parse_of_segments (by decide +kernel)
  have hhead : ∀ e ∈ last.childrenIn datacenter,
      (PropertyId.segments "metrics/load").head? ≠ some e.1 := by
    have hnone : (q.reach? datacenter ["hosts", "machines"]).map
        (fun last => (last.childrenIn datacenter).map (·.1)) = some [] := by decide +kernel
    rw [hlast] at hnone
    have hnil := List.map_eq_nil_iff.1 (Option.some.inj hnone)
    rw [hnil]
    exact nofun
  have hfield : (⟨"hosts/machines/metrics/load"⟩ : PropertyId).text =
      pathText (["hosts", "machines"] ++ [(⟨"metrics/load"⟩ : PropertyId).text]) := by
    decide +kernel
  have hname : (⟨"metrics/load"⟩ : PropertyId).name ≠ PropertyId.wildcard := by decide +kernel
  obtain ⟨hend, habove, -⟩ :=
    addProperty_changes_chain hfree hfield hlast hvalid hname hhead range
  exact ⟨last, hlast, hfree, hvalid, hhead, hend, habove ["hosts"] "machines" [] rfl,
    by decide +kernel, by decide +kernel, by decide +kernel⟩

end Query
end ResourceQuery
