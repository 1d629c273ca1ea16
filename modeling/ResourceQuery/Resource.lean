import ResourceQuery.Collection.Distinct
import ResourceQuery.Json.Text
import ResourceQuery.Schema

/-!
# Resources

A resource is a row of some type: values stored under property ids.
-/

namespace ResourceQuery

/-- A row with its property values. -/
structure Resource where
  type : ResourceType
  properties : SortedMap PropertyId Json

namespace Resource

/-- The value of a property, if the row has it. -/
def value? (r : Resource) (id : PropertyId) : Option Json := r.properties.get? id

/-- The value of a property as a key; a missing value and `null` give none. -/
def key? (r : Resource) (id : PropertyId) : Option String := r.value? id >>= Json.keyText

/-- Whether a property lies within one of the selected ids. -/
def isSelected (ids : SortedSet PropertyId) (id : PropertyId) : Bool :=
  ids.toList.any fun selected => id.isWithin selected.text

/-- The row with only the selected properties; an id selects itself and what lies beneath. -/
def project (r : Resource) (ids : SortedSet PropertyId) : Resource :=
  { r with properties := r.properties.filter fun id _ => isSelected ids id }

/-- Agreement of rows: the same type and properties, with agreeing values. -/
def agrees (r s : Resource) : Bool :=
  r.type == s.type &&
    (r.properties.keys == s.properties.keys &&
      Json.agreesItems r.properties.values s.properties.values)

/-- The data from which the hash of a row is computed: the type, then every id with the text
of its value. -/
def fingerprint (r : Resource) : Fingerprint :=
  .text r.type.name ::
    r.properties.entries.flatMap fun (id, value) => [.text id.text, .text value.text]

/-- The first occurrences of the rows of a list. -/
def distinct (rows : List Resource) : List Resource := Distinct.firsts fingerprint agrees rows

end Resource
end ResourceQuery
