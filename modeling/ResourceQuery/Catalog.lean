import ResourceQuery.Schema

/-!
# The catalog of resource definitions

A definition names a resource type and lists the types nested beneath it.  The catalog holds
one definition for each type it knows; it need not know every type that a definition names.
-/

namespace ResourceQuery

/-- A type nested beneath another. -/
structure SubResource where
  type : ResourceType
  /-- Whether it is exposed under its plural name, as a collection. -/
  isCollection : Bool
  /-- Further types whose keys every nested row is asked for. -/
  foreignKeys : List ResourceType
deriving DecidableEq

/-- What is known of a resource type. -/
structure ResourceDefinition where
  type : ResourceType
  singularName : String
  pluralName : String
  subResources : List SubResource
deriving DecidableEq

namespace ResourceDefinition

/-- The name under which a parent exposes this type. -/
def exposedName (d : ResourceDefinition) (isCollection : Bool) : String :=
  if isCollection then d.pluralName else d.singularName

/-- Whether a name is one of the three names of the type. -/
def hasName (d : ResourceDefinition) (name : String) : Bool :=
  d.pluralName == name || d.singularName == name || d.type.name == name

end ResourceDefinition

/-- The known definitions, by type. -/
structure Catalog where
  byType : SortedMap ResourceType ResourceDefinition
deriving DecidableEq

namespace Catalog

instance : EmptyCollection Catalog := ⟨⟨∅⟩⟩

/-- The catalog of a list of definitions; of two for one type the later counts. -/
def ofList (definitions : List ResourceDefinition) : Catalog :=
  ⟨SortedMap.ofList (definitions.map fun d => (d.type, d))⟩

/-- All definitions, in the order of their types. -/
def definitions (c : Catalog) : List ResourceDefinition := c.byType.values

/-- The definition of a type. -/
def definition? (c : Catalog) (t : ResourceType) : Option ResourceDefinition := c.byType.get? t

/-- The first definition that has a name. -/
def named? (c : Catalog) (name : String) : Option ResourceDefinition :=
  c.definitions.find? (·.hasName name)

end Catalog
end ResourceQuery
