import ResourceQuery.FieldList
import ResourceQuery.Store.Read

/-!
# Errors of queries
-/

namespace ResourceQuery

/-- Why a query cannot be made or carried out. -/
inductive QueryError where
  | provider (error : ProviderError)
  | propertyId (error : InvalidPropertyId)
  | invalidFields (fields : String) (reason : String)
  | unknownType (type : ResourceType)
deriving DecidableEq

namespace QueryError

/-- The stable name of this kind of error. -/
def code : QueryError → String
  | .provider e => e.code
  | .propertyId _ => InvalidPropertyId.code
  | .invalidFields _ _ => "CLUSTERQ_INVALID_FIELDS"
  | .unknownType _ => "CLUSTERQ_UNKNOWN_RESOURCE_TYPE"

/-- The error in words. -/
def message : QueryError → String
  | .provider e => e.message
  | .propertyId e => e.message
  | .invalidFields fields reason => "Invalid fields '" ++ fields ++ "': " ++ reason
  | .unknownType type => "Unknown resource type: " ++ type.name

end QueryError

/-- The fields of a list, naming the text that is refused. -/
def FieldList.ofText (text : String) : Except QueryError (List FieldSelection) :=
  (FieldList.parse text).mapError fun fault => .invalidFields text fault.reason

end ResourceQuery
