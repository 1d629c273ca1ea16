import ResourceQuery.Proofs.Query.Batch

/-!
# Rows that carry the keys of a key map

A node asks for the rows that pass the user's filter and carry every key to which its key map binds
a type.  Whether a row contradicts a key map is decided apart from that, by comparing the keys that
the row has.  The two agree as far as they can: a row carries what a key map binds just when it
contradicts nothing and lacks no key.
-/

namespace ResourceQuery
namespace QueryNode

variable (n : QueryNode) (c : Cluster) (m : KeyMap) {r : Resource}

/-- Whether a row has, for every bound type that the schema of the node knows, the key to which the
type is bound. -/
def Carries (r : Resource) : Prop :=
  ∀ t key id, m.get? t = some (.bound key) → (n.schema c).keyOf? t = some id →
    r.key? id = some key

/-- Whether a row has some key for every bound type that the schema of the node knows. -/
def LacksNoKey (r : Resource) : Prop :=
  ∀ t key id, m.get? t = some (.bound key) → (n.schema c).keyOf? t = some id → r.key? id ≠ none

theorem admits_predicateFor_iff : Predicate.admits (n.predicateFor c m) r = true ↔
    Predicate.admits n.userPredicate r = true ∧ n.Carries c m r := by
  simp only [admits_predicateFor, KeyMap.bound?_eq_some_iff, Carries]

/-- The keys of a row of the node's type stand where the schema of the node says. -/
theorem rowKey?_eq_some_iff (htype : r.type = n.type) {t : ResourceType} {key : String} :
    c.rowKey? r t = some key ↔
      ∃ id, (n.schema c).keyOf? t = some id ∧ r.key? id = some key := by
  rw [Cluster.rowKey?, htype]
  exact Option.bind_eq_some_iff

theorem carries_iff (htype : r.type = n.type) :
    n.Carries c m r ↔ c.conflicts r m = false ∧ n.LacksNoKey c m r := by
  simp only [c.conflicts_eq_false_iff, KeyMap.bound?_eq_some_iff]
  constructor
  · intro hcarries
    refine ⟨fun t expected actual hbound hactual => ?_, fun t key id hbound hid hnone => ?_⟩
    · obtain ⟨id, hid, hkey⟩ := (n.rowKey?_eq_some_iff c htype).1 hactual
      exact Option.some.inj (hkey.symm.trans (hcarries t expected id hbound hid))
    · cases hnone.symm.trans (hcarries t key id hbound hid)
  · rintro ⟨hagrees, hkeys⟩ t key id hbound hid
    obtain ⟨actual, hactual⟩ := Option.ne_none_iff_exists'.1 (hkeys t key id hbound hid)
    have hrow := (n.rowKey?_eq_some_iff c htype).2 ⟨id, hid, hactual⟩
    rw [hactual, hagrees t key actual hbound hrow]

/-- A row satisfies the predicate of a key map just when it passes the user's filter and carries
every bound key that the schema knows.  Then it does not contradict the map, and a row that does not
contradict the map carries the bound keys unless it lacks one. -/
theorem predicateFor_admits_carriers (htype : r.type = n.type) :
    (Predicate.admits (n.predicateFor c m) r = true ↔
        Predicate.admits n.userPredicate r = true ∧ n.Carries c m r) ∧
      (Predicate.admits (n.predicateFor c m) r = true → c.conflicts r m = false) ∧
      (n.Carries c m r ↔ c.conflicts r m = false ∧ n.LacksNoKey c m r) := by
  refine ⟨n.admits_predicateFor_iff c m, fun hadmits => ?_, n.carries_iff c m htype⟩
  exact ((n.carries_iff c m htype).1 ((n.admits_predicateFor_iff c m).1 hadmits).2).1

open Datacenter

/-- Virtual machines that say in one property where they stand, be it a rack or a room. -/
def placedMachines : Cluster :=
  ⟨.ofList [machines], (∅ : Store).register machine
    (.ofList [(machine, ⟨"name"⟩), (host, ⟨"host"⟩), (rack, ⟨"place"⟩), (⟨"Room"⟩, ⟨"place"⟩)])⟩

/-- The virtual machines of one owner on any host in a place, in a zone that the schema does not
know. -/
def ownedMachines : QueryNode :=
  { QueryNode.fresh machines (.ofList [(host, .unbound), (rack, .bound "7"),
      (⟨"Room"⟩, .bound "7"), (⟨"Zone"⟩, .bound "z1")]) with
    userPredicate := some (.equals ⟨"owner"⟩ (.string "o1")) }

/-- A virtual machine whose place is stored as a number. -/
def numberedMachine : Resource :=
  ⟨machine, .ofList [(⟨"name"⟩, .string "m1"), (⟨"owner"⟩, .string "o1"),
    (⟨"place"⟩, .ofNat 7)]⟩

theorem ownedMachine_carries : numberedMachine.type = ownedMachines.type ∧
    Predicate.admits (ownedMachines.predicateFor placedMachines ownedMachines.keyMap)
      numberedMachine = true ∧
    ownedMachines.Carries placedMachines ownedMachines.keyMap numberedMachine ∧
    placedMachines.conflicts numberedMachine ownedMachines.keyMap = false := by
  have htype : numberedMachine.type = ownedMachines.type := rfl
  have hadmits : Predicate.admits (ownedMachines.predicateFor placedMachines ownedMachines.keyMap)
      numberedMachine = true := by
    decide +kernel
  obtain ⟨hmeans, hagrees, -⟩ := ownedMachines.predicateFor_admits_carriers placedMachines
    ownedMachines.keyMap htype
  exact ⟨htype, hadmits, (hmeans.1 hadmits).2, hagrees hadmits⟩

end QueryNode
end ResourceQuery
