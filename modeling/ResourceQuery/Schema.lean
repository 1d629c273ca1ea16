import ResourceQuery.Collection.SortedMap
import ResourceQuery.Collection.SortedSet
import ResourceQuery.PropertyId

/-!
# Resource types, key bindings and schemas

A resource type is a name.  A key map binds types to concrete instances or leaves them open.
The schema of a type says in which of its properties the keys of the related types stand.
-/

namespace ResourceQuery

/-- The name of a kind of resource. -/
structure ResourceType where
  name : String
deriving DecidableEq

namespace ResourceType

instance : Ord ResourceType := ⟨compareOn name⟩

instance : Std.TransOrd ResourceType := inferInstanceAs (Std.TransCmp (compareOn name))

instance : Std.LawfulEqOrd ResourceType where
  eq_of_compare {a b} h := by
    cases a
    cases b
    exact congrArg _ (Std.LawfulEqOrd.eq_of_compare h)

end ResourceType

/-- How a type is bound: to the instance with a key, or to none. -/
inductive KeyBinding where
  /-- To the instance with this key. -/
  | bound (value : String)
  /-- To no instance in particular. -/
  | unbound
deriving DecidableEq

namespace KeyBinding

/-- The key of the instance, if there is one. -/
def value? : KeyBinding → Option String
  | .bound value => some value
  | .unbound => none

/-- Whether an instance is named. -/
def isBound (b : KeyBinding) : Bool := b.value?.isSome

/-- The binding to an instance that may be missing. -/
def ofOption : Option String → KeyBinding
  | some value => .bound value
  | none => .unbound

/-- Bound bindings come first, in the order of their keys. -/
instance : Ord KeyBinding :=
  ⟨compareLex (compareOn fun b => !b.isBound) (compareOn value?)⟩

instance : Std.TransOrd KeyBinding :=
  inferInstanceAs (Std.TransCmp
    (compareLex (compareOn fun b : KeyBinding => !b.isBound) (compareOn value?)))

instance : Std.LawfulEqOrd KeyBinding where
  eq_of_compare {a b} h := by
    have hv : a.value? = b.value? :=
      Std.LawfulEqOrd.eq_of_compare (compareLex_eq_eq.1 h).2
    cases a <;> cases b <;> simp_all [value?]

end KeyBinding

/-- Types with their bindings. -/
abbrev KeyMap := SortedMap ResourceType KeyBinding

namespace KeyMap

/-- Entries are compared by type, then by binding. -/
def compareEntry : ResourceType × KeyBinding → ResourceType × KeyBinding → Ordering :=
  compareLex (compareOn Prod.fst) (compareOn Prod.snd)

instance : Std.TransCmp compareEntry :=
  inferInstanceAs (Std.TransCmp (compareLex (compareOn Prod.fst) (compareOn Prod.snd)))

instance : Std.LawfulEqCmp compareEntry where
  eq_of_compare {a b} h := by
    obtain ⟨h₁, h₂⟩ := compareLex_eq_eq.1 h
    exact Prod.ext (Std.LawfulEqOrd.eq_of_compare h₁)
      (Std.LawfulEqOrd.eq_of_compare h₂)

/-- Key maps are compared entry by entry; a map that another one continues comes first. -/
instance : Ord KeyMap := ⟨fun m n => List.compareLex compareEntry m.entries n.entries⟩

instance : Std.TransOrd KeyMap where
  eq_swap {_ _} := @Std.OrientedCmp.eq_swap _ (List.compareLex compareEntry) _ _ _
  isLE_trans {_ _ _} := @Std.TransCmp.isLE_trans _ (List.compareLex compareEntry) _ _ _ _

instance : Std.LawfulEqOrd KeyMap where
  compare_self {_} := @Std.ReflCmp.compare_self _ (List.compareLex compareEntry) _ _
  eq_of_compare {m n} h := by
    have he := @Std.LawfulEqCmp.eq_of_compare _ (List.compareLex compareEntry) _ _ _ h
    cases m
    cases n
    simp_all

/-- The instance a type is bound to, if it is bound. -/
def bound? (m : KeyMap) (t : ResourceType) : Option String := m.get? t >>= KeyBinding.value?

/-- Whether a type is bound to no instance, or not mentioned at all. -/
def isUnbound (m : KeyMap) (t : ResourceType) : Bool := (m.bound? t).isNone

end KeyMap

/-- Where the keys of related types stand among the properties of a type. -/
structure Schema where
  keys : SortedMap ResourceType PropertyId
deriving DecidableEq

namespace Schema

/-- The schema without key properties. -/
def empty : Schema := ⟨∅⟩

instance : EmptyCollection Schema := ⟨empty⟩

instance : Inhabited Schema := ⟨empty⟩

/-- The schema of a list of key properties; of two for one type the later counts. -/
def ofList (pairs : List (ResourceType × PropertyId)) : Schema := ⟨SortedMap.ofList pairs⟩

/-- Set the key property of a type. -/
def withKey (s : Schema) (t : ResourceType) (id : PropertyId) : Schema := ⟨s.keys.insert t id⟩

/-- The property that holds the key of a type, if the schema knows it. -/
def keyOf? (s : Schema) (t : ResourceType) : Option PropertyId := s.keys.get? t

/-- Whether a property holds the key of some type. -/
def isKey (s : Schema) (id : PropertyId) : Bool := id ∈ s.keys.values

/-- The key properties of the given types that the schema knows. -/
def keysOf (s : Schema) (types : List ResourceType) : List PropertyId :=
  types.filterMap s.keyOf?

end Schema
end ResourceQuery
