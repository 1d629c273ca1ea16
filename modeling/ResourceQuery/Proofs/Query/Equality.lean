import ResourceQuery.Proofs.Query.Hashing
import ResourceQuery.Proofs.Query.RowByRow
import ResourceQuery.Proofs.Query.Run

/-!
# What equal queries ask for

Queries are compared by their type, their properties, their bindings, their filter and their page.
This decides the predicate that is sent, and the properties that are asked for as long as both
queries select all properties or neither does.  Ranges of time are not compared: equal queries
send the same request exactly when they give each of their properties the same range.
-/

namespace ResourceQuery

namespace QueryNode

variable {n m : QueryNode}

/-- A request gives a range to the properties that are listed, each its own or the one of the rest
of the properties. -/
theorem get?_request_timeRanges (n : QueryNode) (id : PropertyId) :
    n.request.timeRanges.get? id = if id ∈ n.propertyIds then n.rangeOf? id else none := by
  have hsorted : Entries.Sorted
      (n.propertyIds.toList.filterMap fun id => (n.rangeOf? id).map (id, ·)) := by
    refine List.pairwise_filterMap.2 (n.propertyIds.sorted.imp fun {a b} hlt p hp q hq => ?_)
    obtain ⟨r, -, rfl⟩ := Option.map_eq_some_iff.1 hp
    obtain ⟨r', -, rfl⟩ := Option.map_eq_some_iff.1 hq
    exact hlt
  have hmem (r : TimeRange) :
      (id, r) ∈ n.propertyIds.toList.filterMap (fun id => (n.rangeOf? id).map (id, ·)) ↔
        id ∈ n.propertyIds ∧ n.rangeOf? id = some r := by
    simp only [List.mem_filterMap, Option.map_eq_some_iff, Prod.mk.injEq]
    constructor
    · rintro ⟨id', hid', r', hr', rfl, rfl⟩
      exact ⟨hid', hr'⟩
    · rintro ⟨hid, hr⟩
      exact ⟨id, hid, r, hr, rfl, rfl⟩
  ext r
  show (SortedMap.ofList _).get? id = some r ↔ _
  rw [SortedMap.get?_ofList hsorted, Entries.get?_eq_some_iff hsorted, hmem]
  split
  · rename_i hid
    exact and_iff_right hid
  · rename_i hid
    exact iff_of_false (fun h => hid h.1) nofun

/-- Two requests for the same properties are the same when the ranges of these properties are. -/
theorem request_eq_iff (hids : n.propertyIds = m.propertyIds)
    (hall : n.allProperties = m.allProperties) :
    n.request = m.request ↔ ∀ id ∈ n.propertyIds, n.rangeOf? id = m.rangeOf? id := by
  constructor
  · intro heq id hid
    have hget : n.request.timeRanges.get? id = m.request.timeRanges.get? id := by rw [heq]
    rwa [get?_request_timeRanges, get?_request_timeRanges, ← hids, if_pos hid, if_pos hid] at hget
  · intro hranges
    have hpropertyIds : n.request.propertyIds = m.request.propertyIds := by
      simp only [request, hids, hall]
    have htimeRanges : n.request.timeRanges = m.request.timeRanges := by
      ext id : 1
      rw [get?_request_timeRanges, get?_request_timeRanges, ← hids]
      split
      · rename_i hid
        exact hranges id hid
      · rfl
    cases hn : n.request
    cases hm : m.request
    rw [hn, hm] at hpropertyIds htimeRanges
    exact congr (congrArg Request.mk hpropertyIds) htimeRanges

end QueryNode

namespace AddressedQuery

variable {c : Cluster} {x y : AddressedQuery}

theorem filtersAgree_refl (p : Option Predicate) : filtersAgree p p = true := by
  cases p with
  | none => rfl
  | some p => exact p.agrees_refl

/-- Nodes of one type whose filters agree amount to predicates that agree. -/
theorem filtersAgree_predicateFor {n m : QueryNode} (htype : n.type = m.type)
    (hfilters : filtersAgree n.userPredicate m.userPredicate = true) (c : Cluster)
    (keyMap : KeyMap) :
    filtersAgree (n.predicateFor c keyMap) (m.predicateFor c keyMap) = true := by
  have hkeys : n.keyPredicate c keyMap = m.keyPredicate c keyMap := by
    simp only [QueryNode.keyPredicate, QueryNode.boundKeys, QueryNode.schema, htype]
  unfold QueryNode.predicateFor
  rw [hkeys]
  cases m.keyPredicate c keyMap with
  | none => exact hfilters
  | some keys =>
    cases hn : n.userPredicate with
    | none =>
      cases hm : m.userPredicate with
      | none => exact filtersAgree_refl _
      | some q => simp [filtersAgree, hn, hm] at hfilters
    | some p =>
      cases hm : m.userPredicate with
      | none => simp [filtersAgree, hn, hm] at hfilters
      | some q =>
        have hagrees : p.agrees q = true := by simpa [filtersAgree, hn, hm] using hfilters
        simp [filtersAgree, Predicate.agrees, Predicate.agreesAll, hagrees, Predicate.agrees_refl]

/-- Equal queries are sent with equal predicates.  If both select all properties, or neither does,
they also ask for the same properties, and for the same data exactly when they give each of these
properties the same range of time. -/
theorem agrees_asks (c : Cluster) (h : x.agrees y = true) :
    filtersAgree (x.query.node.predicate c) (y.query.node.predicate c) = true ∧
      (x.query.node.allProperties = y.query.node.allProperties →
        x.query.node.request.propertyIds = y.query.node.request.propertyIds ∧
          (x.query.node.request = y.query.node.request ↔
            ∀ id ∈ x.query.node.propertyIds,
              x.query.node.rangeOf? id = y.query.node.rangeOf? id)) := by
  obtain ⟨-, htype, hids, hkeyMap, hfilters, -⟩ := agrees_iff.1 h
  constructor
  · unfold QueryNode.predicate
    rw [hkeyMap]
    exact filtersAgree_predicateFor htype hfilters c _
  · intro hall
    refine ⟨?_, QueryNode.request_eq_iff hids hall⟩
    simp only [QueryNode.request, hids, hall]

open Query Datacenter

/-- All racks, after some operations. -/
def racksAfter (ops : List Operation) : AddressedQuery :=
  ⟨0, ((leaf (.fresh racks anyRack)).run datacenter (ops.map ([], ·))).1⟩

/-- The loads since a time. -/
def loadsSince (start : Int) : AddressedQuery :=
  racksAfter [.addProperty none (some "load") (some ⟨start, none, none⟩)]

/-- The loads since two different times are equal queries for different data, and so are the names
with and without all other properties. -/
theorem loadsSince_agree_ask_apart :
    Query.new datacenter rack anyRack = .ok (leaf (.fresh racks anyRack)) ∧
      ((loadsSince 0).agrees (loadsSince 100) = true ∧
        (loadsSince 0).query.node.request ≠ (loadsSince 100).query.node.request) ∧
      let names := racksAfter [.addProperty none (some "name") none]
      let everything := racksAfter [.addProperty none (some "name") none,
        .addProperty none (some "*") none]
      names.agrees everything = true ∧
        names.query.node.request ≠ everything.query.node.request := by
  exact ⟨rfl, by decide +kernel⟩

/-- The loads in a range of time, and the names, selected in two ways. -/
theorem loads_agree_ask_same :
    let x := racksAfter [.addProperty none (some "load") (some ⟨1, some 2, some 3⟩),
      .addProperty none (some "name") none, .setPredicate (some (.equals ⟨"name"⟩ (.string "r1")))]
    let y := racksAfter [.setPredicate (some (.equals ⟨"name"⟩ (.string "r1"))),
      .addFields "name,load[1,2,3]", .setPage none]
    x.agrees y = true ∧ x.query.node.allProperties = y.query.node.allProperties ∧
      (∀ id ∈ x.query.node.propertyIds.toList,
        x.query.node.rangeOf? id = y.query.node.rangeOf? id) ∧
      x.query.node.timeRanges.size = 1 ∧ x.query.node.request = y.query.node.request ∧
      filtersAgree (x.query.node.predicate datacenter) (y.query.node.predicate datacenter) =
        true := by
  intro x y
  have hagrees : x.agrees y = true := by decide +kernel
  have hall : x.query.node.allProperties = y.query.node.allProperties := by decide +kernel
  have hranges : ∀ id ∈ x.query.node.propertyIds.toList,
      x.query.node.rangeOf? id = y.query.node.rangeOf? id := by decide +kernel
  have hsize : x.query.node.timeRanges.size = 1 := by decide +kernel
  obtain ⟨hpredicate, hrequest⟩ := agrees_asks datacenter hagrees
  exact ⟨hagrees, hall, hranges, hsize, (hrequest hall).2.2 hranges, hpredicate⟩

end AddressedQuery
end ResourceQuery
