import ResourceQuery.Resource

/-!
# Sorting rows

Rows are compared by the values at the sort keys in turn.  A missing value comes first, then
`null`, truth values, numbers, texts, arrays and objects; arrays are not told apart, nor are
objects, and numbers are compared as doubles.  Sorting is stable: rows that no key tells apart
keep their order.
-/

namespace ResourceQuery

/-- The direction of a sort key. -/
inductive SortOrder where
  | ascending
  | descending
deriving DecidableEq

/-- A property to sort by. -/
structure SortKey where
  id : PropertyId
  order : SortOrder
deriving DecidableEq

namespace Json

/-- The place of the kind of a value in the order of kinds. -/
def kindRank : Json → Nat
  | .null => 0
  | .bool _ => 1
  | .number _ => 2
  | .string _ => 3
  | .array _ => 4
  | .object _ => 5

/-- The order of two values: by kind, and within a kind by value where it has an order. -/
def order (a b : Json) : Ordering :=
  match a, b with
  | .bool x, .bool y => compare x y
  | .number m, .number n => m.toBinary64.order n.toBinary64
  | .string s, .string t => compare s t
  | a, b => compare a.kindRank b.kindRank

end Json

namespace SortKey

/-- The order of two values that may be missing; a missing value comes first. -/
def orderOptional : Option Json → Option Json → Ordering
  | none, none => .eq
  | none, some _ => .lt
  | some _, none => .gt
  | some a, some b => a.order b

/-- The order of two rows by one key. -/
def compareRows (key : SortKey) (r s : Resource) : Ordering :=
  let o := orderOptional (r.value? key.id) (s.value? key.id)
  match key.order with
  | .ascending => o
  | .descending => o.swap

end SortKey

/-- The order of two rows by several keys; earlier keys take precedence. -/
def compareRows (keys : List SortKey) (r s : Resource) : Ordering :=
  keys.foldr (fun key rest => (key.compareRows r s).then rest) .eq

/-- The rows in order; rows that no key tells apart keep their places relative to each
other. -/
def sortRows (keys : List SortKey) (rows : List Resource) : List Resource :=
  rows.mergeSort fun r s => (compareRows keys r s).isLE

end ResourceQuery
