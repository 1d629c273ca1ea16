import ResourceQuery.Catalog
import ResourceQuery.Json.Decode
import ResourceQuery.Page.Basic
import ResourceQuery.Predicate.Basic
import ResourceQuery.ResultTree.Basic

/-!
# The JSON forms of the domain's values

Every value that is stored or exchanged has one written form.  Reading is more generous than
writing: unknown fields are passed over, and some fields may be missing.  An optional filter
is written `null` when there is none, and so is an open key binding.
-/

namespace ResourceQuery

namespace Json

/-- A value that may be missing. -/
def ofOption {α : Type} (encode : α → Json) : Option α → Json
  | some a => encode a
  | none => .null

def ofList {α : Type} (encode : α → Json) (xs : List α) : Json := .array (xs.map encode)

/-- A map with texts as keys. -/
def ofMap {κ α : Type} [Ord κ] (name : κ → String) (encode : α → Json) (m : SortedMap κ α) :
    Json :=
  ofFields (m.entries.map fun (k, a) => (name k, encode a))

end Json

/-! ## Names -/

/-- The form of a property id: its text. -/
def PropertyId.toJson (id : PropertyId) : Json := .string id.text

/-- Any text is taken for a property id. -/
def PropertyId.ofDocument? (d : Document) : Option PropertyId := d.string?.map .mk

/-- The form of a resource type: its name. -/
def ResourceType.toJson (t : ResourceType) : Json := .string t.name

/-- Any text is taken for a type. -/
def ResourceType.ofDocument? (d : Document) : Option ResourceType := d.string?.map .mk

/-! ## Bindings and schemas -/

/-- The form of a binding: the key, or `null`. -/
def KeyBinding.toJson (b : KeyBinding) : Json := .ofOption .string b.value?

/-- A key, or `null`. -/
def KeyBinding.ofDocument? (d : Document) : Option KeyBinding :=
  (d.nullable? Document.string?).map .ofOption

/-- The form of a key map: the bindings under the names of the types. -/
def KeyMap.toJson (m : KeyMap) : Json := .ofMap ResourceType.name KeyBinding.toJson m

def KeyMap.ofDocument? (d : Document) : Option KeyMap :=
  (d.pairs? ResourceType.mk KeyBinding.ofDocument?).map .ofList

/-- The form of a schema: the key properties under the names of the types. -/
def Schema.toJson (s : Schema) : Json :=
  .object [("keys", .ofMap ResourceType.name PropertyId.toJson s.keys)]

/-- A schema; the key properties may be missing. -/
def Schema.ofDocument? (d : Document) : Option Schema := do
  let parts ← d.parts? ["keys"]
  let keys ← parts.withDefault? "keys" [] (·.pairs? ResourceType.mk PropertyId.ofDocument?)
  return .ofList keys

/-! ## Resources and definitions -/

/-- The properties of a row, under their ids. -/
def Resource.propertiesToJson (r : Resource) : Json := .ofMap PropertyId.text id r.properties

/-- The form of a row: its type and its properties. -/
def Resource.toJson (r : Resource) : Json :=
  .object [("properties", r.propertiesToJson), ("type", r.type.toJson)]

/-- The properties of a row, under their ids. -/
def Resource.propertiesOfDocument? (d : Document) : Option (SortedMap PropertyId Json) :=
  (d.pairs? PropertyId.mk Document.toJson?).map .ofList

/-- A row; its properties may be missing. -/
def Resource.ofDocument? (d : Document) : Option Resource := do
  let parts ← d.parts? ["type", "properties"]
  let type ← parts.required? "type" ResourceType.ofDocument?
  let properties ← parts.withDefault? "properties" ∅ Resource.propertiesOfDocument?
  return ⟨type, properties⟩

def SubResource.toJson (s : SubResource) : Json :=
  .object [("additional_foreign_keys", .ofList ResourceType.toJson s.foreignKeys),
    ("is_collection", .bool s.isCollection), ("type", s.type.toJson)]

/-- A nested type: a collection without foreign keys, if nothing else is said. -/
def SubResource.ofDocument? (d : Document) : Option SubResource := do
  let parts ← d.parts? ["type", "is_collection", "additional_foreign_keys"]
  let type ← parts.required? "type" ResourceType.ofDocument?
  let isCollection ← parts.withDefault? "is_collection" true Document.bool?
  let foreignKeys ← parts.withDefault? "additional_foreign_keys" []
    (·.list? ResourceType.ofDocument?)
  return ⟨type, isCollection, foreignKeys⟩

def ResourceDefinition.toJson (r : ResourceDefinition) : Json :=
  .object [("plural_name", .string r.pluralName), ("singular_name", .string r.singularName),
    ("sub_resources", .ofList SubResource.toJson r.subResources), ("type", r.type.toJson)]

/-- A definition; the nested types may be missing. -/
def ResourceDefinition.ofDocument? (d : Document) : Option ResourceDefinition := do
  let parts ← d.parts? ["type", "singular_name", "plural_name", "sub_resources"]
  let type ← parts.required? "type" ResourceType.ofDocument?
  let singularName ← parts.required? "singular_name" Document.string?
  let pluralName ← parts.required? "plural_name" Document.string?
  let subResources ← parts.withDefault? "sub_resources" [] (·.list? SubResource.ofDocument?)
  return ⟨type, singularName, pluralName, subResources⟩

/-- The form of a catalog: its definitions, in the order of the types. -/
def Catalog.toJson (c : Catalog) : Json := .ofList ResourceDefinition.toJson c.definitions

/-- A list of definitions; the last one of a type counts. -/
def Catalog.ofDocument? (d : Document) : Option Catalog :=
  (d.list? ResourceDefinition.ofDocument?).map .ofList

/-! ## Predicates -/

namespace Predicate

mutual

/-- The form of a predicate: an object whose one field names the kind. -/
def toJson : Predicate → Json
  | .equals id value =>
    .object [("equals", .object [("property_id", id.toJson), ("value", value)])]
  | .all ops => .object [("and", .array (operandsToJson ops))]
  | .any ops => .object [("or", .array (operandsToJson ops))]

def operandsToJson : List Predicate → List Json
  | [] => []
  | p :: ps => p.toJson :: operandsToJson ps

end

/-- The comparison that the parts of an object name; both parts are needed. -/
def comparison? (d : Document) : Option Predicate := do
  let parts ← d.objectParts? ["property_id", "value"]
  let id ← parts.required? "property_id" PropertyId.ofDocument?
  let value ← parts.required? "value" Document.toJson?
  return .equals id value

mutual

def ofDocument? : Document → Option Predicate
  | .object depth [(some "equals", d)] =>
    if depth ≤ Document.maxDepth then comparison? d else none
  | .object depth [(some "and", .array inner ops)] =>
    if depth ≤ Document.maxDepth ∧ inner ≤ Document.maxDepth then
      (operandsOfDocuments? ops).map .all
    else none
  | .object depth [(some "or", .array inner ops)] =>
    if depth ≤ Document.maxDepth ∧ inner ≤ Document.maxDepth then
      (operandsOfDocuments? ops).map .any
    else none
  | _ => none

def operandsOfDocuments? : List Document → Option (List Predicate)
  | [] => some []
  | d :: ds => do return (← ofDocument? d) :: (← operandsOfDocuments? ds)

end

end Predicate

/-! ## Pages -/

def SortOrder.toJson : SortOrder → Json
  | .ascending => .string "asc"
  | .descending => .string "desc"

/-- A choice without content, written as its name or as an object with `null`. -/
def Document.emptyChoice? (d : Document) : Option String :=
  match d.choice? with
  | some (name, none) => some name
  | some (name, some .null) => some name
  | _ => none

def SortOrder.ofDocument? (d : Document) : Option SortOrder :=
  match d.emptyChoice? with
  | some "asc" => some .ascending
  | some "desc" => some .descending
  | _ => none

def SortKey.toJson (k : SortKey) : Json :=
  .object [("order", k.order.toJson), ("property_id", k.id.toJson)]

def SortKey.ofDocument? (d : Document) : Option SortKey := do
  let parts ← d.parts? ["property_id", "order"]
  let id ← parts.required? "property_id" PropertyId.ofDocument?
  let order ← parts.required? "order" SortOrder.ofDocument?
  return ⟨id, order⟩

def StartingPoint.toJson : StartingPoint → Json
  | .beginning => .string "beginning"
  | .ending => .string "end"
  | .offsetStart n => .object [("offset_start", .ofNat n)]
  | .offsetEnd n => .object [("offset_end", .ofNat n)]

def StartingPoint.ofDocument? (d : Document) : Option StartingPoint :=
  match d.choice? with
  | some ("offset_start", some n) => n.nat?.map .offsetStart
  | some ("offset_end", some n) => n.nat?.map .offsetEnd
  | _ =>
    match d.emptyChoice? with
    | some "beginning" => some .beginning
    | some "end" => some .ending
    | _ => none

def SortKey.listToJson (keys : List SortKey) : Json :=
  .object [("fields", .ofList SortKey.toJson keys)]

def SortKey.listOfDocument? (d : Document) : Option (List SortKey) := do
  let parts ← d.parts? ["fields"]
  parts.required? "fields" (·.list? SortKey.ofDocument?)

def PageRequest.toJson (p : PageRequest) : Json :=
  .object [("page_size", .ofNat p.size), ("sort", .ofOption SortKey.listToJson p.sort),
    ("starting_point", p.start.toJson)]

/-- A page; the sort keys may be missing. -/
def PageRequest.ofDocument? (d : Document) : Option PageRequest := do
  let parts ← d.parts? ["starting_point", "page_size", "sort"]
  let start ← parts.required? "starting_point" StartingPoint.ofDocument?
  let size ← parts.required? "page_size" Document.nat?
  let sort ← parts.withDefault? "sort" none (·.nullable? SortKey.listOfDocument?)
  return ⟨start, size, sort⟩

/-! ## Result trees -/

mutual

/-- The form of a result tree; empty properties are left out. -/
def ResultTree.toJson : ResultTree → Json
  | .mk isCollection properties rows =>
    let shown := if properties.isEmpty then [] else [("properties", .ofMap id .string properties)]
    .object (("collection", .bool isCollection) :: shown ++ [("rows", .array (rowsToJson rows))])

def rowsToJson : List ResultRow → List Json
  | [] => []
  | row :: rows => row.toJson :: rowsToJson rows

/-- The form of a row; without sub-resources their field is left out. -/
def ResultRow.toJson : ResultRow → Json
  | .mk resource subResources =>
    let shown :=
      if subResources.isEmpty then []
      else [("sub_resources", .ofFields (subResourcesToJson subResources))]
    .object (("resource", resource.toJson) :: shown)

def subResourcesToJson : List (String × ResultTree) → List (String × Json)
  | [] => []
  | (name, tree) :: rest => (name, tree.toJson) :: subResourcesToJson rest

end

end ResourceQuery
