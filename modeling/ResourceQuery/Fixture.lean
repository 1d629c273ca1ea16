import ResourceQuery.Form
import ResourceQuery.Query.Node

/-!
# Fixtures

A fixture describes a whole cluster: the definitions of the types, and for each type its
schema, the properties it exposes and its rows.
-/

namespace ResourceQuery

/-- The described data of a type. -/
structure TypeFixture where
  schema : Schema
  /-- The exposed properties; without a set every property is. -/
  supported : Option (SortedSet PropertyId)
  rows : List (SortedMap PropertyId Json)

/-- The description of a cluster. -/
structure Fixture where
  catalog : Catalog
  types : SortedMap ResourceType TypeFixture

namespace TypeFixture

/-- The form of the data of a type. -/
def toJson (f : TypeFixture) : Json :=
  .object [("resources", .ofList (.ofMap PropertyId.text id) f.rows),
    ("schema", f.schema.toJson),
    ("supported_properties", .ofOption (fun ids => .ofList PropertyId.toJson ids.toList)
      f.supported)]

/-- The data of a type; every part may be missing. -/
def ofDocument? (d : Document) : Option TypeFixture := do
  let parts ← d.parts? ["schema", "supported_properties", "resources"]
  let schema ← parts.withDefault? "schema" ∅ Schema.ofDocument?
  let supported ← parts.withDefault? "supported_properties" none
    (·.nullable? (·.list? PropertyId.ofDocument?))
  let rows ← parts.withDefault? "resources" [] (·.list? Resource.propertiesOfDocument?)
  return ⟨schema, supported.map .ofList, rows⟩

end TypeFixture

namespace Fixture

/-- The form of a fixture. -/
def toJson (f : Fixture) : Json :=
  .object [("definitions", f.catalog.toJson),
    ("types", .ofMap ResourceType.name TypeFixture.toJson f.types)]

/-- A fixture; both parts may be missing. -/
def ofDocument? (d : Document) : Option Fixture := do
  let parts ← d.parts? ["definitions", "types"]
  let catalog ← parts.withDefault? "definitions" ∅ Catalog.ofDocument?
  let types ← parts.withDefault? "types" [] (·.pairs? ResourceType.mk TypeFixture.ofDocument?)
  return ⟨catalog, .ofList types⟩

/-- The fixture written in a text. -/
def ofText? (text : String) : Option Fixture := Document.ofText? text >>= ofDocument?

/-- The table of the data of a type. -/
def table (type : ResourceType) (f : TypeFixture) : Table :=
  ⟨f.schema, f.supported, f.rows.map fun properties => ⟨type, properties⟩⟩

/-- The store that a fixture describes. -/
def store (f : Fixture) : Store where
  tables := .ofList (f.types.entries.map fun (type, data) => (type, table type data))
  ofType t table' h := by
    have hmem := SortedMap.mem_of_get?_ofList h
    obtain ⟨⟨type, data⟩, -, heq⟩ := List.mem_map.1 hmem
    obtain ⟨rfl, rfl⟩ := Prod.mk.inj heq
    intro r hr
    obtain ⟨properties, -, rfl⟩ := List.mem_map.1 hr
    rfl

/-- The cluster that a fixture describes. -/
def cluster (f : Fixture) : Cluster := ⟨f.catalog, f.store⟩

end Fixture
end ResourceQuery
