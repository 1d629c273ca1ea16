import ResourceQuery.Proofs.Query.Binding
import ResourceQuery.Proofs.Query.Fetch

/-!
# The predicate of a batch

One read asks for the rows under several key maps, with an alternative for every map that amounts
to a predicate.  A map that amounts to none has no alternative.  So the read covers all maps when
every one of them has an alternative, or none has, and only then: where some have and some have
not, the rows of the latter are lost.
-/

namespace ResourceQuery
namespace QueryNode

variable (n : QueryNode) (c : Cluster) {keyMaps : List KeyMap} {x : Resource}

/-- What a batch admits: what one of its alternatives admits, or everything if it has none. -/
theorem admits_batchPredicate :
    Predicate.admits (n.batchPredicate c keyMaps) x = true ↔
      (∀ m ∈ keyMaps, n.predicateFor c m = none) ∨
        ∃ m ∈ keyMaps, ∃ p, n.predicateFor c m = some p ∧ p.holds x = true := by
  rw [batchPredicate, Predicate.admits_disjunction, Predicate.exists_mem_distinct_holds,
    Predicate.distinct, Distinct.firsts_eq_nil_iff, List.filterMap_eq_nil_iff]
  refine or_congr_right ⟨?_, ?_⟩
  · rintro ⟨p, hp, hx⟩
    obtain ⟨m, hm, hmp⟩ := List.mem_filterMap.1 hp
    exact ⟨m, hm, p, hmp, hx⟩
  · rintro ⟨m, hm, p, hmp, hx⟩
    exact ⟨p, List.mem_filterMap.2 ⟨m, hm, hmp⟩, hx⟩

theorem admits_batchPredicate_of_mem {m : KeyMap} (hm : m ∈ keyMaps)
    (hne : n.predicateFor c m ≠ none) (hx : Predicate.admits (n.predicateFor c m) x = true) :
    Predicate.admits (n.batchPredicate c keyMaps) x = true := by
  obtain ⟨p, hp⟩ := Option.ne_none_iff_exists'.1 hne
  rw [hp] at hx
  exact (n.admits_batchPredicate c).2 (.inr ⟨m, hm, p, hp, hx⟩)

/-- A batch mentions what its alternatives mention. -/
theorem exists_of_mem_mentions_batchPredicate {id : PropertyId}
    (h : id ∈ Predicate.mentions (n.batchPredicate c keyMaps)) :
    ∃ m ∈ keyMaps, id ∈ Predicate.mentions (n.predicateFor c m) := by
  obtain ⟨p, hp, hid⟩ := Predicate.mem_mentions_disjunction.1 h
  obtain ⟨m, hm, hmp⟩ := List.mem_filterMap.1 (Predicate.mem_of_mem_distinct hp)
  exact ⟨m, hm, by rw [hmp]; exact hid⟩

/-- A batch with an alternative mentions what the user's filter mentions. -/
theorem mem_mentions_batchPredicate {m : KeyMap} (hm : m ∈ keyMaps)
    (hne : n.predicateFor c m ≠ none) {id : PropertyId}
    (h : id ∈ Predicate.mentions n.userPredicate) :
    id ∈ Predicate.mentions (n.batchPredicate c keyMaps) := by
  obtain ⟨p, hp⟩ := Option.ne_none_iff_exists'.1 hne
  have hmem : p ∈ keyMaps.filterMap (n.predicateFor c) := List.mem_filterMap.2 ⟨m, hm, hp⟩
  -- Of the alternatives that are kept any one will do: each was made with the user's filter.
  have hkept : Predicate.distinct (keyMaps.filterMap (n.predicateFor c)) ≠ [] := by
    rw [Predicate.distinct, ne_eq, Distinct.firsts_eq_nil_iff]
    exact List.ne_nil_of_mem hmem
  obtain ⟨p', hp'⟩ := List.exists_mem_of_ne_nil _ hkept
  obtain ⟨m', -, hm'⟩ := List.mem_filterMap.1 (Predicate.mem_of_mem_distinct hp')
  have hid := (n.mem_mentions_predicateFor c).2 (.inl h : _ ∨ id ∈ Predicate.mentions
    (n.keyPredicate c m'))
  rw [hm'] at hid
  exact Predicate.mem_mentions_disjunction.2 ⟨p', hp', hid⟩

/-- A row without properties carries no key, so a key map that binds one does not admit it. -/
theorem admits_predicateFor_bare {m : KeyMap} (huser : n.userPredicate = none) :
    Predicate.admits (n.predicateFor c m) ⟨n.type, ∅⟩ = true ↔ n.predicateFor c m = none := by
  rw [predicateFor_eq_none_iff, admits_predicateFor]
  constructor
  · rintro ⟨-, hkeys⟩
    refine ⟨huser, List.eq_nil_iff_forall_not_mem.2 fun ⟨id, key⟩ hmem => ?_⟩
    obtain ⟨t, hb, hid⟩ := (n.mem_boundKeys c).1 hmem
    have hkey := hkeys t key id hb hid
    simp [Resource.key?, Resource.value?] at hkey
  · rintro ⟨-, hnil⟩
    refine ⟨by rw [huser]; rfl, fun t key id hb hid => ?_⟩
    have hmem := (n.mem_boundKeys c).2 ⟨t, hb, hid⟩
    rw [hnil] at hmem
    cases hmem

/-- A batch covers its key maps exactly when it does not mix maps with and without predicate. -/
theorem batchPredicate_covers_iff (hne : keyMaps ≠ []) :
    (∀ x : Resource, x.type = n.type → (Predicate.admits (n.batchPredicate c keyMaps) x = true ↔
        ∃ m ∈ keyMaps, Predicate.admits (n.predicateFor c m) x = true)) ↔
      ((∃ m ∈ keyMaps, n.predicateFor c m = none) →
        ∀ m ∈ keyMaps, n.predicateFor c m = none) := by
  constructor
  · rintro hcovers ⟨m₀, hm₀, hnone⟩
    -- The row that only the maps without predicate admit is the one without properties.
    have huser := ((n.predicateFor_eq_none_iff c).1 hnone).1
    have hbare := (hcovers ⟨n.type, ∅⟩ rfl).2 ⟨m₀, hm₀, by rw [hnone]; rfl⟩
    rcases (n.admits_batchPredicate c).1 hbare with hall | ⟨m, hm, p, hp, hx⟩
    · exact hall
    · have hnone' := (n.admits_predicateFor_bare c huser (m := m)).1 (by rw [hp]; exact hx)
      rw [hp] at hnone'
      cases hnone'
  · intro hmix x _
    rw [admits_batchPredicate]
    by_cases hnone : ∃ m ∈ keyMaps, n.predicateFor c m = none
    · obtain ⟨m, hm, hmnone⟩ := hnone
      have hadmits : Predicate.admits (n.predicateFor c m) x = true := by rw [hmnone]; rfl
      exact iff_of_true (.inl (hmix ⟨m, hm, hmnone⟩)) ⟨m, hm, hadmits⟩
    · obtain ⟨m₀, hm₀⟩ := List.exists_mem_of_ne_nil _ hne
      have hsome : ¬ ∀ m ∈ keyMaps, n.predicateFor c m = none :=
        fun hall => hnone ⟨m₀, hm₀, hall m₀ hm₀⟩
      rw [or_iff_right hsome]
      refine exists_congr fun m => and_congr_right fun hm => ?_
      obtain ⟨p, hp⟩ := Option.ne_none_iff_exists'.1 fun h => hnone ⟨m, hm, h⟩
      simp [hp, Predicate.admits]

end QueryNode

/-! ## Racks, hosts and virtual machines -/

namespace Datacenter

def rack : ResourceType := ⟨"Rack"⟩

def host : ResourceType := ⟨"Host"⟩

def machine : ResourceType := ⟨"Machine"⟩

def racks : ResourceDefinition := ⟨rack, "rack", "racks", [⟨host, true, []⟩]⟩

def hosts : ResourceDefinition := ⟨host, "host", "hosts", [⟨machine, true, []⟩]⟩

def machines : ResourceDefinition := ⟨machine, "machine", "machines", []⟩

/-- A row of texts. -/
def row (t : ResourceType) (properties : List (String × String)) : Resource :=
  ⟨t, .ofList (properties.map fun (name, text) => (⟨name⟩, .string text))⟩

def rackRow (name : String) : Resource := row rack [("name", name)]

def hostRow (name inRack : String) : Resource := row host [("name", name), ("rack", inRack)]

/-- A virtual machine on a host in a rack. -/
def machineRow (name onHost inRack : String) : Resource :=
  row machine [("name", name), ("host", onHost), ("rack", inRack)]

/-- The schemas, without rows. -/
def schemas : Store :=
  (((∅ : Store).register rack (.ofList [(rack, ⟨"name"⟩)])).register host
    (.ofList [(host, ⟨"name"⟩), (rack, ⟨"rack"⟩)])).register machine
    (.ofList [(machine, ⟨"name"⟩), (host, ⟨"host"⟩), (rack, ⟨"rack"⟩)])

def cluster (rows : List Resource) : Cluster :=
  ⟨.ofList [racks, hosts, machines], rows.foldl Store.addRow schemas⟩

/-- The key map that leaves the rack open. -/
def anyRack : KeyMap := SortedMap.insert ∅ rack .unbound

end Datacenter

namespace Query

variable {c : Cluster} {depth : Nat} {keyMaps : List KeyMap} {call : Call}

theorem head?_calls_andThen_readNode (c : Cluster) (p : Option Predicate) (q : Query)
    (next : Query → Stage Query) :
    ∃ count, ((q.readNode c p).andThen next).calls.head? =
      some ⟨q.node.type, (q.prepare c).node.request, p, count⟩ := by
  cases ha : (q.prepare c).answer c p with
  | error e => exact ⟨none, by simp [readNode, ha, Stage.andThen]⟩
  | ok rows => exact ⟨some rows.length, by simp [readNode, ha, Stage.andThen]⟩

/-- The first read of a fetch is the batch for its key maps. -/
theorem fetch_call {child : Query} (h : (fetch c depth keyMaps child).calls.head? = some call) :
    keyMaps ≠ [] ∧ call.type = child.node.type ∧
      call.predicate = child.node.batchPredicate c keyMaps := by
  rcases keyMaps with _ | ⟨m, ms⟩
  · simp [fetch] at h
  · rcases depth with _ | depth
    · simp [fetch] at h
    · obtain ⟨count, hcall⟩ := head?_calls_andThen_readNode c
        (child.node.batchPredicate c (m :: ms)) (child.addKeyMaps (m :: ms))
        fun q => q.fetchBeneath c (fetch c depth) q.node.rows
      simp only [fetch, hcall] at h
      obtain rfl := Option.some.inj h
      exact ⟨List.cons_ne_nil m ms, rfl, rfl⟩

/-- The read that is sent for some rows of a parent admits just the rows that belong beneath one
of them, unless some of the parent's rows restrict the child and some do not: then it is sent
without an alternative for the latter. -/
theorem sent_predicate_covers_iff (parent : QueryNode) (rows : List Resource) (child : Query)
    (hcall : (fetch c depth (parent.rowKeyMaps c rows) child).calls.head? = some call) :
    (∀ x : Resource, x.type = child.node.type → (Predicate.admits call.predicate x = true ↔
        ∃ m ∈ parent.rowKeyMaps c rows,
          Predicate.admits (child.node.predicateFor c m) x = true)) ↔
      ((∃ m ∈ parent.rowKeyMaps c rows, child.node.predicateFor c m = none) →
        ∀ m ∈ parent.rowKeyMaps c rows, child.node.predicateFor c m = none) := by
  obtain ⟨hne, -, hpredicate⟩ := fetch_call hcall
  rw [hpredicate]
  exact child.node.batchPredicate_covers_iff c hne

open Datacenter

/-- A node for all racks that was asked. -/
def allRacks : QueryNode := { QueryNode.fresh racks anyRack with keyMaps := .ofList [anyRack] }

/-- The child of such a node for the hosts. -/
def hostsBeneath (c : Cluster) : Query := child c anyRack ⟨host, true, []⟩ hosts

/-- The read of the hosts beneath two racks. -/
def hostsCall (c : Cluster) (p : Predicate) (count : Nat) : Call :=
  ⟨host, ((hostsBeneath c).prepare c).node.request, some p, some count⟩

/-- Two racks, and a host in each. -/
def twoRacks : Cluster :=
  cluster [rackRow "r1", rackRow "r2", hostRow "h1" "r1", hostRow "h2" "r2"]

theorem sent_predicate_covers_two_racks :
    ∃ call, (fetch twoRacks 1 (allRacks.rowKeyMaps twoRacks [rackRow "r1", rackRow "r2"])
        (hostsBeneath twoRacks)).calls.head? = some call ∧
      ∀ x : Resource, x.type = host → (Predicate.admits call.predicate x = true ↔
        ∃ m ∈ allRacks.rowKeyMaps twoRacks [rackRow "r1", rackRow "r2"],
          Predicate.admits ((hostsBeneath twoRacks).node.predicateFor twoRacks m) x = true) := by
  have hcall : (fetch twoRacks 1 (allRacks.rowKeyMaps twoRacks [rackRow "r1", rackRow "r2"])
      (hostsBeneath twoRacks)).calls.head? = some (hostsCall twoRacks
        (.any [.equals ⟨"rack"⟩ (.string "r1"), .equals ⟨"rack"⟩ (.string "r2")]) 2) := rfl
  exact ⟨_, hcall, (sent_predicate_covers_iff _ _ _ hcall).2 (by decide)⟩

/-- The two racks, where one has no name.  It has no key, so it binds nothing beneath it, and all
hosts belong there. -/
def namelessRack : Cluster :=
  cluster [rackRow "r1", row rack [], hostRow "h1" "r1", hostRow "h2" "r2"]

theorem sent_predicate_misses_host :
    ∃ call, (fetch namelessRack 1 (allRacks.rowKeyMaps namelessRack [rackRow "r1", row rack []])
        (hostsBeneath namelessRack)).calls.head? = some call ∧
      ¬ ∀ x : Resource, x.type = host → (Predicate.admits call.predicate x = true ↔
        ∃ m ∈ allRacks.rowKeyMaps namelessRack [rackRow "r1", row rack []],
          Predicate.admits ((hostsBeneath namelessRack).node.predicateFor namelessRack m) x =
            true) := by
  refine ⟨hostsCall namelessRack (.equals ⟨"rack"⟩ (.string "r1")) 1, rfl, fun hcovers => ?_⟩
  have hadmits := (hcovers (hostRow "h2" "r2") rfl).2 ⟨∅, by decide, by decide⟩
  exact absurd hadmits (by decide)

end Query
end ResourceQuery
