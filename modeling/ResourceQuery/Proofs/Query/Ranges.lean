import Mathlib.Data.Fintype.EquivFin
import ResourceQuery.Proofs.Query.Basis
import ResourceQuery.Proofs.Query.Equality
import ResourceQuery.Proofs.Query.Shape
import ResourceQuery.Proofs.Query.Unfolding

/-!
# Ranges of time in requests

A node knows a range of time for a property: the one that the property was selected with, or else
the one that all properties were selected with.  Its request names the ranges of the properties that
are selected by themselves.  A property with a range of its own is always among these, so a request
for selected properties says of each of them what the node knows.  A request for all properties says
nothing of those that are not selected by themselves, and the range of all properties is lost.
-/

namespace ResourceQuery

/-- Whether a request is for a property, alone or among all. -/
def Request.AsksFor (r : Request) (id : PropertyId) : Prop := r.isAll = true ∨ id ∈ r.propertyIds

/-- There is a property that is not in a set. -/
theorem PropertyId.exists_not_mem (ids : SortedSet PropertyId) : ∃ id, id ∉ ids := by
  obtain ⟨text, htext⟩ := Infinite.exists_notMem_finset (ids.toList.map (·.text)).toFinset
  exact ⟨⟨text⟩, fun hid => htext (List.mem_toFinset.2 (List.mem_map_of_mem hid))⟩

namespace Query

variable {c : Cluster} {q q' start x : Query} {type : ResourceType} {keyMap : KeyMap}

/-! ## Properties with ranges of their own -/

/-- Every property with a range of its own is selected, on every level. -/
inductive Ranged : Query → Prop where
  | intro {q : Query}
      (selected : ∀ id, q.node.timeRanges.get? id ≠ none → id ∈ q.node.propertyIds)
      (beneath : ∀ e ∈ q.children.getD [], Ranged e.2) : Ranged q

namespace Ranged

theorem selected (h : Ranged q) {id : PropertyId} (hid : q.node.timeRanges.get? id ≠ none) :
    id ∈ q.node.propertyIds := by
  cases h with
  | intro selected _ => exact selected id hid

theorem beneath (h : Ranged q) {e : String × Query} (he : e ∈ q.children.getD []) :
    Ranged e.2 := by
  cases h with
  | intro _ beneath => exact beneath e he

theorem leaf {node : QueryNode} (h : node.timeRanges = ∅) : Ranged (leaf node) := by
  refine .intro (fun id hid => ?_) nofun
  have hid : node.timeRanges.get? id ≠ none := hid
  rw [h] at hid
  exact absurd (SortedMap.get?_empty id) hid

theorem new (h : Query.new c type keyMap = .ok q) : Ranged q := by
  obtain ⟨definition, -, rfl⟩ := eq_leaf_of_new h
  exact leaf rfl

theorem materialize (h : Ranged q) : Ranged (q.materialize c) := by
  obtain ⟨node, _ | children⟩ := q
  · refine .intro (fun _ hid => h.selected hid) fun e he => ?_
    obtain ⟨sub, -, d, -, rfl⟩ := mem_newChildren he
    exact leaf rfl
  · exact h

/-- A child can change where it stands. -/
theorem of_child {node : QueryNode} {children children' : List (String × Query)} {name : String}
    {new : Query} (h : Ranged (mk node (some children)))
    (hmem : ∀ e ∈ children', e = (name, new) ∨ e ∈ children) (hnew : Ranged new) :
    Ranged (mk node (some children')) := by
  refine .intro (fun _ hid => h.selected hid) fun e he => ?_
  rcases hmem e he with rfl | he
  · exact hnew
  · exact h.beneath he

theorem of_changes (hchanges : Changes c q q') (h : Ranged q) : Ranged q' := by
  induction hchanges with
  | refl q => exact h
  | trans _ _ ih ih' => exact ih' (ih h)
  | node _ _ hproperties hranges =>
    refine .intro (fun id hid => ?_) fun e he => h.beneath he
    rcases hranges id hid with hbefore | hselected
    · exact hproperties id (h.selected hbefore)
    · exact hselected
  | materialize q => exact h.materialize
  | insert hget _ ih =>
    exact h.of_child (fun e he => Entries.mem_insert he) (ih (h.beneath (Entries.mem_of_get? hget)))
  | @replace _ before after name old _ _ ih =>
    have hold : (name, old) ∈ before ++ (name, old) :: after := List.mem_append_cons_self
    exact h.of_child (fun e he => mem_of_mem_replace he) (ih (h.beneath hold))

theorem reach (h : Ranged q) {path : List String} (hx : q.reach? c path = some x) : Ranged x := by
  induction path generalizing q with
  | nil => exact Option.some.inj hx ▸ h
  | cons name path ih =>
    obtain ⟨child, hchild, hx⟩ := reach?_cons_eq_some_iff.1 hx
    exact ih (h.materialize.beneath (Entries.mem_of_get? hchild)) hx

end Ranged

/-! ## Requests -/

/-- A request says of a property what its node knows just if the property is selected, or nothing is
known of all properties. -/
theorem Ranged.get?_request_eq_iff (h : Ranged q) (id : PropertyId) :
    q.node.request.timeRanges.get? id = q.node.rangeOf? id ↔
      id ∈ q.node.propertyIds ∨ q.node.defaultRange = none := by
  rw [QueryNode.get?_request_timeRanges]
  by_cases hid : id ∈ q.node.propertyIds
  · rw [if_pos hid]
    exact iff_of_true rfl (.inl hid)
  · have hown : q.node.timeRanges.get? id = none := not_not.1 fun hrange => hid (h.selected hrange)
    rw [if_neg hid, or_iff_right hid, QueryNode.rangeOf?, hown]
    exact eq_comm

/-- What a request that is not for all properties asks for is selected. -/
theorem mem_propertyIds_of_asksFor {n : QueryNode} {id : PropertyId}
    (hall : n.request.isAll = false) (h : n.request.AsksFor id) : id ∈ n.propertyIds := by
  have hid : id ∈ n.request.propertyIds := h.resolve_left (hall ▸ Bool.false_ne_true)
  unfold QueryNode.request at hid
  simp only at hid
  split at hid
  · exact absurd hid (SortedSet.not_mem_empty id)
  · exact hid

/-- Whatever was done with a query, the request of each of its nodes says of a property which range
of time the node knows for it, except of the properties that are not selected by themselves once all
properties were selected for a range.  So the request says this of everything that it asks for,
unless it is for all properties and these were selected for a range. -/
theorem run_request_ranges (hnew : Query.new c type keyMap = .ok start)
    (steps : List (List String × Operation)) {path : List String}
    (hx : (start.run c steps).1.reach? c path = some x) :
    (∀ id, x.node.request.timeRanges.get? id = x.node.rangeOf? id ↔
        id ∈ x.node.propertyIds ∨ x.node.defaultRange = none) ∧
      ((∀ id, x.node.request.AsksFor id →
          x.node.request.timeRanges.get? id = x.node.rangeOf? id) ↔
        x.node.request.isAll = false ∨ x.node.defaultRange = none) := by
  have hranged : Ranged x := ((Ranged.new hnew).of_changes (.run steps)).reach hx
  refine ⟨hranged.get?_request_eq_iff, fun hsame => ?_, fun hcases id hid => ?_⟩
  · -- A request for all asks for some property that is not selected by itself.
    by_contra hneither
    obtain ⟨hall, hdefault⟩ := not_or.1 hneither
    obtain ⟨id, hid⟩ := PropertyId.exists_not_mem x.node.propertyIds
    have hasked : x.node.request.AsksFor id := .inl (Bool.not_eq_false _ ▸ hall)
    exact ((hranged.get?_request_eq_iff id).1 (hsame id hasked)).elim hid hdefault
  · rw [hranged.get?_request_eq_iff]
    rcases hcases with hall | hdefault
    · exact .inl (mem_propertyIds_of_asksFor hall hid)
    · exact .inr hdefault

open Datacenter

/-- The loads of the hosts in all racks for a range of time, and the names of these hosts. -/
def hostLoads : List (List String × Operation) :=
  [([], .addProperty (some "hosts") (some "load") (some ⟨0, some 100, none⟩)),
    (["hosts"], .addProperty none (some "name") none), ([], .execute 1)]

theorem hostLoads_request_ranges :
    ∃ x, Query.new datacenter rack anyRack = .ok (leaf (.fresh racks anyRack)) ∧
      ((leaf (.fresh racks anyRack)).run datacenter hostLoads).1.reach? datacenter ["hosts"] =
        some x ∧
      x.node.request.isAll = false ∧
      x.node.request.timeRanges.get? ⟨"load"⟩ = some ⟨0, some 100, none⟩ ∧
      ∀ id, x.node.request.AsksFor id →
        x.node.request.timeRanges.get? id = x.node.rangeOf? id := by
  have hnode : (((leaf (.fresh racks anyRack)).run datacenter hostLoads).1.reach? datacenter
      ["hosts"]).map (fun x => (x.node.request.isAll, x.node.request.timeRanges.get? ⟨"load"⟩)) =
        some (false, some ⟨0, some 100, none⟩) := by
    decide +kernel
  obtain ⟨x, hx, hx'⟩ := Option.map_eq_some_iff.1 hnode
  obtain ⟨hall, hload⟩ := Prod.mk.inj hx'
  have hnew : Query.new datacenter rack anyRack = .ok (leaf (.fresh racks anyRack)) := rfl
  exact ⟨x, hnew, hx, hall, hload, (run_request_ranges hnew hostLoads hx).2.2 (.inl hall)⟩

/-- All properties of the racks for a range of time: the request is for all properties, but for no
range. -/
theorem rackLoads_request_without_range :
    let q := ((leaf (.fresh racks anyRack)).run datacenter
      [([], .addProperty none (some "*") (some ⟨0, some 100, none⟩))]).1
    Query.new datacenter rack anyRack = .ok (leaf (.fresh racks anyRack)) ∧
      q.node.request.AsksFor ⟨"load"⟩ ∧
      q.node.rangeOf? ⟨"load"⟩ = some ⟨0, some 100, none⟩ ∧
      q.node.request.timeRanges.get? ⟨"load"⟩ = none := by
  intro q
  exact ⟨rfl, .inl (by decide +kernel), by decide +kernel, by decide +kernel⟩

end Query
end ResourceQuery
