import ResourceQuery.Page.Basic
import ResourceQuery.Store.Basic

/-!
# Reading from a store

A read asks for the rows of a type that satisfy a predicate.  It is refused when it names a
property that the type does not expose, when the predicate requires a parent that is not
stored, or when it requires a key of the type itself and no row matches.  The rows come back
in stored order, restricted to the properties asked for, the key properties and the
properties that the predicate mentions, so that they can be filtered by it again.
-/

namespace ResourceQuery

/-- Why a provider refuses a read. -/
inductive ProviderError where
  | unsupportedProperties (type : ResourceType) (ids : List PropertyId)
  | systemFailure (description : String)
  | noSuchResource (description : String)
  | noSuchParent (description : String)
deriving DecidableEq

namespace ProviderError

/-- The stable name of this kind of error. -/
def code : ProviderError → String
  | .unsupportedProperties _ _ => "CLUSTERQ_UNSUPPORTED_PROPERTY"
  | .systemFailure _ => "CLUSTERQ_SYSTEM_FAILURE"
  | .noSuchResource _ => "CLUSTERQ_NO_SUCH_RESOURCE"
  | .noSuchParent _ => "CLUSTERQ_NO_SUCH_PARENT_RESOURCE"

/-- The error in words. -/
def message : ProviderError → String
  | .unsupportedProperties type ids =>
    "Unsupported properties for " ++ type.name ++ ": " ++
      String.intercalate ", " (ids.map (·.text))
  | .systemFailure description => "System failure: " ++ description
  | .noSuchResource description => "Resource not found: " ++ description
  | .noSuchParent description => "Parent resource not found: " ++ description

/-- Whether the request is at fault and not the provider. -/
def isClientError : ProviderError → Bool
  | .systemFailure _ => false
  | _ => true

/-- An instance that is missing, in words. -/
def notFound (type : ResourceType) (key : String) : String :=
  type.name ++ " '" ++ key ++ "' not found"

end ProviderError

namespace Table

/-- Whether a property is exposed: it is a key property, or a supported id lies within it or
it within a supported id. -/
def supports (table : Table) (supported : SortedSet PropertyId) (id : PropertyId) : Bool :=
  table.schema.isKey id ||
    supported.toList.any fun s => s.isWithin id.text || id.isWithin s.text

/-- The properties that a read names and the type does not expose, in order. -/
def unsupported (table : Table) (request : Request) (p : Option Predicate) : List PropertyId :=
  match table.supported with
  | none => []
  | some supported =>
    let named := request.propertyIds.toList ++ (p.map Predicate.mentioned).getD []
    (SortedSet.ofList (named.filter fun id => !table.supports supported id)).toList

/-- The rows that pass a predicate, in stored order. -/
def matching (table : Table) (p : Option Predicate) : List Resource :=
  table.rows.filter (Predicate.admits p)

/-- The first value that the predicate requires of the type's own key. -/
def requiredKey? (table : Table) (t : ResourceType) (p : Option Predicate) : Option Json :=
  match table.schema.keyOf? t, p with
  | some key, some p => (p.required.find? (·.1 == key)).map (·.2)
  | _, _ => none

/-- The ids within which the properties of an answer lie. -/
def answerIds (table : Table) (request : Request) (p : Option Predicate) :
    SortedSet PropertyId :=
  (request.propertyIds.insertMany table.schema.keys.values).insertMany
    ((p.map Predicate.mentioned).getD [])

/-- Restrict rows to the properties of an answer; a request for all leaves them whole. -/
def restrict (table : Table) (request : Request) (p : Option Predicate) (rows : List Resource) :
    List Resource :=
  if request.isAll then rows else rows.map (·.project (table.answerIds request p))

end Table

namespace Store

/-- The type, other than `t`, for whose key a property of `t` stands; of several the first. -/
def parentType? (schema : Schema) (t : ResourceType) (id : PropertyId) : Option ResourceType :=
  (schema.keys.entries.find? fun (t', id') => id' == id && t' != t).map (·.1)

/-- Whether a row of the type has a key. -/
def hasInstance (s : Store) (t : ResourceType) (key : String) : Bool :=
  match s.table? t with
  | none => false
  | some table =>
    match table.schema.keyOf? t with
    | none => false
    | some id => table.rows.any fun r => r.key? id == some key

/-- The first parent that required comparisons name and that is not stored. -/
def missingParent? (s : Store) (schema : Schema) (t : ResourceType)
    (required : List (PropertyId × Json)) : Option (ResourceType × String) :=
  required.findSome? fun (id, value) =>
    match parentType? schema t id, value.keyText with
    | some parent, some key => if s.hasInstance parent key then none else some (parent, key)
    | _, _ => none

/-- Why a read of a known type is refused, if it is. -/
def refusal? (s : Store) (table : Table) (t : ResourceType) (request : Request)
    (p : Option Predicate) : Option ProviderError :=
  match table.unsupported request p with
  | id :: ids => some (.unsupportedProperties t (id :: ids))
  | [] =>
    match s.missingParent? table.schema t ((p.map Predicate.required).getD []) with
    | some (parent, key) => some (.noSuchParent (ProviderError.notFound parent key))
    | none =>
      match table.matching p, table.requiredKey? t p with
      | [], some value =>
        some (.noSuchResource (ProviderError.notFound t (value.keyText.getD "")))
      | _, _ => none

/-- Read the rows of a type. -/
def read (s : Store) (t : ResourceType) (request : Request) (p : Option Predicate) :
    Except ProviderError (List Resource) :=
  match s.table? t with
  | none => .error (.systemFailure ("no data for resource type " ++ t.name))
  | some table =>
    match s.refusal? table t request p with
    | some e => .error e
    | none => .ok (table.restrict request p (table.matching p))

end Store

/-- The rows among those already read that pass a predicate. -/
def narrow (rows : List Resource) (p : Option Predicate) : List Resource :=
  rows.filter (Predicate.admits p)

/-- One page of the rows among those already read that pass a predicate. -/
def narrowToPage (rows : List Resource) (p : Option Predicate) (page : PageRequest) :
    Page Resource :=
  page.selectSorted (narrow rows p)

end ResourceQuery
