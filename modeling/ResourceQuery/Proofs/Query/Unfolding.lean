import Mathlib.Data.Fintype.Order
import Mathlib.Logic.Relation
import ResourceQuery.Proofs.Query.Batch
import ResourceQuery.Proofs.Query.Depth

/-!
# How far a query unfolds by itself

A query selects some children without being told to: all of them where nothing is selected on a
node, and those through which the path of a key property leads.  The children are made as they are
needed, so a type that unfolds into itself can be carried out forever.  Where no type does, every
query is carried out to its end: beneath the nodes that it has at the start, each further level
goes one step along the unfolding of types.
-/

namespace ResourceQuery

/-! ## The unfolding of types -/

namespace Cluster

variable (c : Cluster)

/-- A node of a definition exposes a child under a name. -/
def Exposes (d : ResourceDefinition) (name : String) (d' : ResourceDefinition) : Prop :=
  ∃ sub ∈ d.subResources,
    c.catalog.definition? sub.type = some d' ∧ d'.exposedName sub.isCollection = name

/-- The definition stands for a type whose schema does not know a key of its own. -/
def Keyless (d : ResourceDefinition) : Prop :=
  ∃ e ∈ c.catalog.byType.entries, e.2 = d ∧ (c.store.schema e.1).keyOf? e.1 = none

/-- A text is a segment of a key property. -/
def KeySegment (s : String) : Prop :=
  ∃ table ∈ c.store.tables.values, ∃ id ∈ table.schema.keys.values, s ∈ PropertyId.segments id.text

/-- A node may select the child under a name unasked: when no property is selected on the node, or
when a key property leads through the child or stands for all children. -/
def SelectsUnasked (d : ResourceDefinition) (name : String) : Prop :=
  c.Keyless d ∨ c.KeySegment name ∨ c.KeySegment PropertyId.wildcard

/-- A node of the first definition may select a child of the second one unasked. -/
def UnfoldsTo (d d' : ResourceDefinition) : Prop :=
  ∃ name, c.Exposes d name d' ∧ c.SelectsUnasked d name

variable {c} {d d' : ResourceDefinition} {t : ResourceType} {id : PropertyId} {s : String}

theorem keySegment_of_mem_values (hid : id ∈ (c.store.schema t).keys.values)
    (hs : s ∈ PropertyId.segments id.text) : c.KeySegment s := by
  unfold Store.schema at hid
  split at hid
  · rename_i table htable
    exact ⟨table, SortedMap.mem_values_iff.2 ⟨t, htable⟩, id, hid, hs⟩
  · obtain ⟨t', ht'⟩ := SortedMap.mem_values_iff.1 hid
    cases ht'

theorem keyless_of_keyOf?_eq_none (hdefinition : c.catalog.definition? t = some d)
    (hkey : (c.store.schema t).keyOf? t = none) : c.Keyless d :=
  ⟨(t, d), SortedMap.get?_eq_some_iff.1 hdefinition, rfl, hkey⟩

/-- What a type unfolds to stands in the catalog. -/
theorem UnfoldsTo.mem_definitions (h : c.UnfoldsTo d d') : d' ∈ c.catalog.definitions := by
  obtain ⟨name, ⟨sub, -, hdefinition, -⟩, -⟩ := h
  exact SortedMap.mem_values_iff.2 ⟨sub.type, hdefinition⟩

instance : Decidable (c.Keyless d) :=
  inferInstanceAs (Decidable (∃ e ∈ c.catalog.byType.entries, _ ∧ _))

instance : Decidable (c.KeySegment s) :=
  inferInstanceAs (Decidable (∃ table ∈ c.store.tables.values, ∃ id ∈ _, _))

instance : Decidable (c.SelectsUnasked d s) := inferInstanceAs (Decidable (_ ∨ _ ∨ _))

instance : Decidable (c.UnfoldsTo d d') :=
  decidable_of_iff (∃ sub ∈ d.subResources, c.catalog.definition? sub.type = some d' ∧
      c.SelectsUnasked d (d'.exposedName sub.isCollection)) <| by
    constructor
    · rintro ⟨sub, hsub, hdefinition, hselects⟩
      exact ⟨_, ⟨sub, hsub, hdefinition, rfl⟩, hselects⟩
    · rintro ⟨_, ⟨sub, hsub, hdefinition, rfl⟩, hselects⟩
      exact ⟨sub, hsub, hdefinition, hselects⟩

/-- Types that can be ranked along their unfolding do not unfold into themselves. -/
theorem acyclic_of_lt (rank : ResourceDefinition → Nat)
    (hlt : ∀ d ∈ c.catalog.definitions, ∀ d' ∈ c.catalog.definitions,
      c.UnfoldsTo d d' → rank d' < rank d) (d : ResourceDefinition) :
    ¬ Relation.TransGen c.UnfoldsTo d d := by
  -- From a type of the catalog on, the rank falls with every step.
  have hfalls : d ∈ c.catalog.definitions → ∀ {d'}, Relation.TransGen c.UnfoldsTo d d' →
      d' ∈ c.catalog.definitions ∧ rank d' < rank d := by
    intro hd d' h
    induction h with
    | single h => exact ⟨h.mem_definitions, hlt _ hd _ h.mem_definitions h⟩
    | tail _ h ih => exact ⟨h.mem_definitions, (hlt _ ih.1 _ h.mem_definitions h).trans ih.2⟩
  intro h
  have hd : d ∈ c.catalog.definitions := by
    obtain ⟨_, -, hlast⟩ := Relation.TransGen.tail'_iff.1 h
    exact hlast.mem_definitions
  exact absurd (hfalls hd h).2 (Nat.lt_irrefl _)

/-- The catalog is finite, so types that do not unfold into themselves do not unfold forever. -/
theorem wellFounded_unfoldsTo (hacyclic : ∀ d, ¬ Relation.TransGen c.UnfoldsTo d d) :
    WellFounded fun d' d => c.UnfoldsTo d d' := by
  let r (x y : {d // d ∈ c.catalog.definitions}) : Prop := Relation.TransGen c.UnfoldsTo y.1 x.1
  have htrans : IsTrans _ r := ⟨fun _ _ _ hxy hyz => hyz.trans hxy⟩
  have hirrefl : Std.Irrefl r := ⟨fun x hx => hacyclic x.1 hx⟩
  have hfinite : Finite {d // d ∈ c.catalog.definitions} := List.finite_toSet _
  have hwf : WellFounded r := Finite.wellFounded_of_trans_of_irrefl r
  -- A type outside of the catalog takes one step into it at most, so the finite part decides.
  have hknown : ∀ x : {d // d ∈ c.catalog.definitions}, Acc (fun d' d => c.UnfoldsTo d d') x.1 := by
    intro x
    induction x using hwf.induction with
    | _ x ih => exact Acc.intro _ fun d' h => ih ⟨d', h.mem_definitions⟩ (.single h)
  exact ⟨fun d => Acc.intro d fun d' h => hknown ⟨d', h.mem_definitions⟩⟩

end Cluster

/-! ## Queries that are left to themselves -/

/-- Everything selected on a node was selected unasked, and a node without properties is of a type
without a key. -/
structure QueryNode.LeftAlone (c : Cluster) (n : QueryNode) : Prop where
  keyless : n.propertyIds.isEmpty = true → c.Keyless n.definition
  selected : ∀ name ∈ n.selected, c.SelectsUnasked n.definition name

namespace Query

/-- From a level of the tree on, the nodes are left alone, and their children are those that the
catalog exposes. -/
inductive LeftAlone (c : Cluster) : Nat → Query → Prop where
  /-- Level 0 is the root itself; above it nothing is known of a node. -/
  | intro {level : Nat} {q : Query} (node : level = 0 → q.node.LeftAlone c)
      (exposed : level = 0 → ∀ e ∈ q.children.getD [],
        c.Exposes q.node.definition e.1 e.2.node.definition)
      (beneath : ∀ e ∈ q.children.getD [], LeftAlone c (level - 1) e.2) : LeftAlone c level q

variable {c : Cluster} {level level' : Nat} {q q' : Query}

/-- A query can stand beneath a node that is left alone from a level on, under a name. -/
structure FitsBeneath (c : Cluster) (level : Nat) (q : Query) (e : String × Query) : Prop where
  exposed : level = 0 → c.Exposes q.node.definition e.1 e.2.node.definition
  leftAlone : LeftAlone c (level - 1) e.2

namespace LeftAlone

theorem node (h : LeftAlone c 0 q) : q.node.LeftAlone c := by
  cases h with
  | intro node _ _ => exact node rfl

theorem fitsBeneath (h : LeftAlone c level q) {e : String × Query}
    (he : e ∈ q.children.getD []) : FitsBeneath c level q e := by
  cases h with
  | intro _ exposed beneath => exact ⟨fun hlevel => exposed hlevel e he, beneath e he⟩

theorem succ (h : LeftAlone c level q) : LeftAlone c (level + 1) q := by
  induction h with
  | @intro level q _ _ beneath ih =>
    refine .intro (fun h => by cases h) (fun h => by cases h) fun e he => ?_
    cases level with
    | zero => exact beneath e he
    | succ level => exact ih e he

theorem mono (h : LeftAlone c level q) (hle : level ≤ level') : LeftAlone c level' q := by
  induction hle with
  | refl => exact h
  | step _ ih => exact ih.succ

end LeftAlone

mutual

/-- A query is a finite tree, so it is left alone from some level on. -/
theorem exists_leftAlone (c : Cluster) : ∀ q : Query, ∃ level, LeftAlone c level q
  | mk node none =>
    ⟨1, .intro (fun h => by cases h) (fun h => by cases h) fun e he => by cases he⟩
  | mk node (some children) => by
    obtain ⟨level, hlevel⟩ := exists_leftAlone_forall c children
    exact ⟨level + 1, .intro (fun h => by cases h) (fun h => by cases h) hlevel⟩

theorem exists_leftAlone_forall (c : Cluster) : ∀ children : List (String × Query),
    ∃ level, ∀ e ∈ children, LeftAlone c level e.2
  | [] => ⟨0, fun e he => by cases he⟩
  | (name, child) :: rest => by
    obtain ⟨l, hl⟩ := exists_leftAlone c child
    obtain ⟨l', hl'⟩ := exists_leftAlone_forall c rest
    refine ⟨max l l', List.forall_mem_cons.2 ⟨hl.mono (Nat.le_max_left l l'), fun e he => ?_⟩⟩
    exact (hl' e he).mono (Nat.le_max_right l l')

end

/-! ## New children -/

theorem mem_newChildren {node : QueryNode} {e : String × Query} (h : e ∈ newChildren c node) :
    ∃ sub ∈ node.definition.subResources, ∃ d, c.catalog.definition? sub.type = some d ∧
      e = (d.exposedName sub.isCollection, child c node.keyMap sub d) := by
  obtain ⟨sub, hsub, he⟩ := List.mem_filterMap.1 (Entries.mem_of_mem_ofList h)
  obtain ⟨d, hd, he⟩ := Option.bind_eq_some_iff.1 he
  exact ⟨sub, hsub, d, hd, (Option.some.inj he).symm⟩

/-- A new child selects the key of its type, if there is one, and no child. -/
theorem child_leftAlone {keyMap : KeyMap} {sub : SubResource} {d : ResourceDefinition}
    (hd : c.catalog.definition? sub.type = some d) : LeftAlone c 0 (child c keyMap sub d) := by
  refine .intro (fun _ => ⟨fun hempty => ?_, fun name hname => ?_⟩) (fun _ e he => by cases he)
    fun e he => by cases he
  · refine Cluster.keyless_of_keyOf?_eq_none hd ?_
    cases hkey : (c.store.schema sub.type).keyOf? sub.type with
    | none => rfl
    | some id =>
      have hid : id ∈ (c.store.schema sub.type).keysOf (sub.type :: sub.foreignKeys) :=
        List.mem_filterMap.2 ⟨sub.type, List.mem_cons_self, hkey⟩
      have hselected : id ∈ (child c keyMap sub d).node.propertyIds :=
        SortedSet.mem_insertMany.2 (.inr hid)
      exact absurd hselected (SortedSet.isEmpty_iff_forall_not_mem.1 hempty id)
  · exact absurd hname (SortedSet.not_mem_empty name)

theorem LeftAlone.fitsBeneath_of_mem_childrenIn (h : LeftAlone c level q) {e : String × Query}
    (he : e ∈ q.childrenIn c) : FitsBeneath c level q e := by
  obtain ⟨node, _ | children⟩ := q
  · obtain ⟨sub, hsub, d, hd, rfl⟩ := mem_newChildren he
    exact ⟨fun _ => ⟨sub, hsub, hd, rfl⟩, (child_leftAlone hd).mono (Nat.zero_le _)⟩
  · exact h.fitsBeneath he

/-! ## Selecting unasked -/

/-- A node stays left alone when it selects what it may select unasked, and when its children are
replaced by others that are left alone. -/
theorem LeftAlone.select (h : LeftAlone c level q)
    (hdefinition : q'.node.definition = q.node.definition)
    (hids : q'.node.propertyIds.isEmpty = true → q.node.propertyIds.isEmpty = true)
    (hselected : level = 0 → ∀ name ∈ q'.node.selected,
      name ∈ q.node.selected ∨ c.SelectsUnasked q.node.definition name)
    (hchildren : ∀ e ∈ q'.children.getD [], e ∈ q.childrenIn c ∨ FitsBeneath c level q e) :
    LeftAlone c level q' := by
  have hfits : ∀ e ∈ q'.children.getD [], FitsBeneath c level q e := by
    intro e he
    rcases hchildren e he with hold | hnew
    · exact h.fitsBeneath_of_mem_childrenIn hold
    · exact hnew
  refine .intro (fun hlevel => ?_) (fun hlevel e he => ?_) fun e he => (hfits e he).leftAlone
  · subst hlevel
    refine ⟨fun hempty => ?_, fun name hname => ?_⟩
    · rw [hdefinition]
      exact h.node.keyless (hids hempty)
    · rw [hdefinition]
      rcases hselected rfl name hname with hold | hnew
      · exact h.node.selected name hold
      · exact hnew
  · rw [hdefinition]
    exact (hfits e he).exposed hlevel

variable {range : Option TimeRange} {path : List String}

theorem LeftAlone.selectAll (h : LeftAlone c level q)
    (hwildcard : c.KeySegment PropertyId.wildcard) : LeftAlone c level (q.selectAll c range) :=
  h.select rfl (fun hempty => hempty) (fun _ _ _ => .inr (.inr (.inr hwildcard)))
    fun _ he => .inl he

theorem LeftAlone.selectLocal (h : LeftAlone c level q) (id : PropertyId) :
    LeftAlone c level (q.selectLocal c range id) := by
  rw [selectLocal_eq]
  refine h.select rfl (fun hempty => ?_) (fun _ _ hname => .inl hname) fun _ he => .inl he
  exact absurd (SortedSet.mem_insert.2 (.inl rfl)) (SortedSet.isEmpty_iff_forall_not_mem.1 hempty id)

/-- A path that a key property takes leads through children that may be selected unasked. -/
theorem LeftAlone.selectChild (h : LeftAlone c level q) {name : String} {old new : Query}
    (hname : c.KeySegment name) (hold : Entries.get? name (q.childrenIn c) = some old)
    (hdefinition : new.node.definition = old.node.definition)
    (hnew : LeftAlone c (level - 1) old → LeftAlone c (level - 1) new) :
    LeftAlone c level (q.selectChild c name new) := by
  have hfits := h.fitsBeneath_of_mem_childrenIn (Entries.mem_of_get? hold)
  refine h.select rfl (fun hempty => ?_) (fun _ name' hname' => ?_) fun e he => ?_
  · rw [SortedSet.isEmpty_iff_forall_not_mem] at hempty ⊢
    exact fun id hid => hempty id (SortedSet.mem_insertMany.2 (.inl hid))
  · rcases SortedSet.mem_insert.1 hname' with rfl | hselected
    · exact .inr (.inr (.inl hname))
    · exact .inl hselected
  · rcases Entries.mem_insert he with rfl | hmem
    · exact .inr ⟨fun hlevel => hdefinition ▸ hfits.exposed hlevel, hnew hfits.leftAlone⟩
    · exact .inl hmem

theorem LeftAlone.selectPath (hpath : ∀ s ∈ path, c.KeySegment s) (h : LeftAlone c level q) :
    LeftAlone c level (selectPath c range path q) := by
  induction path generalizing level q with
  | nil => exact h
  | cons head rest ih =>
    obtain ⟨hhead, hrest⟩ := List.forall_mem_cons.1 hpath
    unfold Query.selectPath
    split
    · rename_i child hchild
      exact h.selectChild hhead hchild ((selectPath_selects c range rest).definition child) (ih hrest)
    · exact h.selectLocal _

theorem LeftAlone.selectNamed {name : String} (hname : ∀ s ∈ PropertyId.segments name, c.KeySegment s)
    (hpath : ∀ s ∈ path, c.KeySegment s) (h : LeftAlone c level q) :
    LeftAlone c level (selectNamed c range name path q) := by
  induction path generalizing level q with
  | nil =>
    unfold Query.selectNamed
    split
    · rename_i hwildcard
      exact h.selectAll (hname _ (by rw [hwildcard]; decide))
    · exact h.selectPath hname
  | cons head rest ih =>
    obtain ⟨hhead, hrest⟩ := List.forall_mem_cons.1 hpath
    unfold Query.selectNamed
    split
    · rename_i child hchild
      exact h.selectChild hhead hchild ((selectNamed_selects c range name rest).definition child)
        (ih hrest)
    · simp only
      split
      · exact h.selectLocal _
      · exact h.selectLocal _

/-- A key property is selected along its own segments. -/
theorem LeftAlone.addId {id : PropertyId} (hid : ∀ s ∈ PropertyId.segments id.text, c.KeySegment s)
    (h : LeftAlone c level q) : LeftAlone c level (q.addId c id) := by
  rw [PropertyId.segments_text] at hid
  have hname : ∀ s ∈ PropertyId.segments id.name, c.KeySegment s := by
    rw [PropertyId.segments_name]
    exact fun s hs => hid s (List.mem_append_right _ hs)
  unfold Query.addId addProperty
  cases hcategory : id.category with
  | none => exact h.selectNamed hname (by simp)
  | some category =>
    rw [hcategory] at hid
    exact h.selectNamed hname fun s hs => hid s (List.mem_append_left _ hs)

theorem LeftAlone.addKeys (h : LeftAlone c level q) : LeftAlone c level (q.addKeys c) := by
  have hids : ∀ id ∈ (q.node.schema c).keysOf (q.node.type :: q.node.keyMap.keys),
      ∀ s ∈ PropertyId.segments id.text, c.KeySegment s := by
    intro id hid s hs
    obtain ⟨t, -, ht⟩ := List.mem_filterMap.1 hid
    exact Cluster.keySegment_of_mem_values (SortedMap.mem_values_iff.2 ⟨t, ht⟩) hs
  unfold Query.addKeys
  generalize (q.node.schema c).keysOf (q.node.type :: q.node.keyMap.keys) = ids at hids
  induction ids generalizing q with
  | nil => exact h
  | cons id ids ih =>
    obtain ⟨hid, hids⟩ := List.forall_mem_cons.1 hids
    exact ih (h.addId hid) hids

theorem LeftAlone.expandDefault (h : LeftAlone c level q) :
    LeftAlone c level (q.expandDefault c) := by
  unfold Query.expandDefault
  split
  · rename_i hnothing
    have hempty : q.node.propertyIds.isEmpty = true := (Bool.and_eq_true_iff.1 hnothing).1
    refine h.select rfl (fun _ => hempty) (fun hlevel _ _ => ?_) fun _ he => .inl he
    subst hlevel
    exact .inr (.inl (h.node.keyless hempty))
  · exact h

theorem LeftAlone.prepare (h : LeftAlone c level q) : LeftAlone c level (q.prepare c) := by
  unfold Query.prepare
  split
  · exact h.addKeys.expandDefault
  · exact h.expandDefault

/-! ## The end of an execution -/

/-- A query that is left alone goes down along the unfolding of types. -/
theorem LeftAlone.exists_within (hacyclic : ∀ d, ¬ Relation.TransGen c.UnfoldsTo d d)
    (h : LeftAlone c 0 q) : ∃ depth, q.Within c depth := by
  generalize hd : q.node.definition = d
  induction d using (Cluster.wellFounded_unfoldsTo hacyclic).induction generalizing q with
  | _ d ih =>
    refine Query.exists_within fun e he => ?_
    obtain ⟨hmem, hselected⟩ := mem_selectedChildren.1 he
    have hfits := h.prepare.fitsBeneath hmem
    have hunfolds : c.UnfoldsTo d e.2.node.definition := by
      rw [← hd, ← (prepare_selects c).definition q]
      exact ⟨e.1, hfits.exposed rfl, h.prepare.node.selected e.1 hselected⟩
    exact ih _ hunfolds hfits.leftAlone rfl

/-- Every query goes only so deep. -/
theorem exists_within_of_acyclic (hacyclic : ∀ d, ¬ Relation.TransGen c.UnfoldsTo d d)
    (q : Query) : ∃ depth, q.Within c depth := by
  obtain ⟨level, h⟩ := exists_leftAlone c q
  induction level generalizing q with
  | zero => exact h.exists_within hacyclic
  | succ level ih =>
    refine exists_within fun e he => ?_
    exact ih e.2 (h.prepare.fitsBeneath (mem_selectedChildren.1 he).1).leftAlone

/-- Where no type unfolds into itself, every execution reaches a result or is refused: it ends at
some depth, and is the same at every greater one. -/
theorem execute_terminates (hacyclic : ∀ d, ¬ Relation.TransGen c.UnfoldsTo d d) (q : Query) :
    ∃ depth, ∀ depth' ≥ depth, q.execute c depth' = q.execute c depth ∧
      (q.execute c depth').outcome ≠ .error .tooDeep := by
  have hchildren : ∀ e ∈ (q.prepare c).selectedChildren, ∃ depth, e.2.Within c depth :=
    fun e _ => exists_within_of_acyclic hacyclic e.2
  obtain ⟨depth, hdepth⟩ := exists_depth_forall hchildren
  have hends := reads_ends_iff.1 (reads_ends hdepth)
  refine ⟨depth, fun depth' hle => ?_⟩
  have hsame := execute_mono hle hends
  exact ⟨hsame, hsame ▸ hends⟩

open Datacenter

/-- The hosts of a catalog in which a host leads back to its rack. -/
def hostsInRack : ResourceDefinition :=
  ⟨host, "host", "hosts", [⟨machine, true, []⟩, ⟨rack, false, []⟩]⟩

/-- Racks lead to hosts and hosts lead back to racks.  Only the latter step is taken unasked, since
the key of a host for its rack is called as the rack is. -/
def ring : Cluster :=
  ⟨.ofList [racks, hostsInRack, machines],
    [rackRow "r1", hostRow "h1" "r1"].foldl Store.addRow schemas⟩

theorem ring_execute_terminates :
    ring.UnfoldsTo hostsInRack racks ∧ (∀ d, ¬ Relation.TransGen ring.UnfoldsTo d d) ∧
      ∃ depth, ∀ depth' ≥ depth,
        (leaf (.fresh hostsInRack anyRack)).execute ring depth' =
          (leaf (.fresh hostsInRack anyRack)).execute ring depth ∧
        ((leaf (.fresh hostsInRack anyRack)).execute ring depth').outcome ≠ .error .tooDeep := by
  have hacyclic : ∀ d, ¬ Relation.TransGen ring.UnfoldsTo d d :=
    Cluster.acyclic_of_lt (fun d => if d = hostsInRack then 1 else 0) (by decide +kernel)
  exact ⟨by decide +kernel, hacyclic, execute_terminates hacyclic _⟩

/-! ### A type that unfolds into itself -/

/-- Groups of groups.  A group has no key. -/
def groups : ResourceDefinition := ⟨⟨"Group"⟩, "group", "groups", [⟨⟨"Group"⟩, true, []⟩]⟩

/-- A single group. -/
def oneGroup : Cluster :=
  ⟨.ofList [groups], ((∅ : Store).register groups.type ∅).addRow (row groups.type [("name", "g1")])⟩

/-- The key map that leaves the group open. -/
def anyGroup : KeyMap := SortedMap.insert ∅ groups.type .unbound

/-- The child of a group for the groups in it. -/
def groupsBeneath : Query := child oneGroup anyGroup ⟨groups.type, true, []⟩ groups

/-- Beneath a group stands the group again, and it is asked for under the same key map. -/
theorem fetch_groupsBeneath (depth : Nat) :
    (fetch oneGroup depth [∅] groupsBeneath).halt = some .tooDeep := by
  induction depth with
  | zero => rfl
  | succ depth ih =>
    have hstep : (fetch oneGroup (depth + 1) [∅] groupsBeneath).halt =
        (fetchSelected (fetch oneGroup depth [∅]) (.insert ∅ "groups")
          [("groups", groupsBeneath)]).halt := rfl
    rw [hstep]
    simp only [fetchSelected, if_pos (SortedSet.mem_insert.2 (.inl rfl)), ih]

theorem groups_execute_not_terminates :
    ¬ ∃ depth, ((leaf (.fresh groups anyGroup)).execute oneGroup depth).outcome ≠
      .error .tooDeep := by
  rintro ⟨depth, hends⟩
  have hreads : ((leaf (.fresh groups anyGroup)).reads oneGroup depth).halt =
      (fetchSelected (fetch oneGroup depth [∅]) (.insert ∅ "groups")
        [("groups", groupsBeneath)]).halt := rfl
  refine hends (outcome_eq_error_iff.2 (hreads.trans ?_))
  simp only [fetchSelected, if_pos (SortedSet.mem_insert.2 (.inl rfl)), fetch_groupsBeneath]

end Query
end ResourceQuery
