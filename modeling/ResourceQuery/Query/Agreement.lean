import ResourceQuery.Query.Basic

/-!
# When queries count as equal

Two queries count as equal when they are addressed to the same provider and agree in type,
selected properties, bindings, filter and page.  Their children, time ranges and the flag
for all properties are not compared.
-/

namespace ResourceQuery

/-- The data from which the hash of an optional value is computed. -/
def Fingerprint.ofOption {α : Type} (mark : α → Fingerprint) : Option α → Fingerprint
  | none => [.number 0]
  | some a => .number 1 :: mark a

/-- The data from which the hash of a list is computed: its length, then its elements. -/
def Fingerprint.ofList {α : Type} (mark : α → Fingerprint) (xs : List α) : Fingerprint :=
  .number xs.length :: xs.flatMap mark

/-- The data from which the hash of a binding is computed. -/
def KeyBinding.fingerprint : KeyBinding → Fingerprint
  | .bound value => [.number 0, .text value]
  | .unbound => [.number 1]

/-- The data from which the hash of a key map is computed. -/
def KeyMap.fingerprint (m : KeyMap) : Fingerprint :=
  Fingerprint.ofList (fun (t, b) => .text t.name :: b.fingerprint) m.entries

/-- The data from which the hash of a sort key is computed. -/
def SortKey.fingerprint (k : SortKey) : Fingerprint :=
  [.text k.id.text, .number (match k.order with | .ascending => 0 | .descending => 1)]

/-- The data from which the hash of a starting point is computed. -/
def StartingPoint.fingerprint : StartingPoint → Fingerprint
  | .beginning => [.number 0]
  | .ending => [.number 1]
  | .offsetStart n => [.number 2, .number n]
  | .offsetEnd n => [.number 3, .number n]

/-- The data from which the hash of a page is computed. -/
def PageRequest.fingerprint (p : PageRequest) : Fingerprint :=
  p.start.fingerprint ++
    .number p.size :: Fingerprint.ofOption (Fingerprint.ofList SortKey.fingerprint) p.sort

/-- A query together with the provider that it is addressed to. -/
structure AddressedQuery where
  /-- The provider, by number. -/
  provider : Nat
  query : Query

namespace AddressedQuery

/-- Agreement of optional filters. -/
def filtersAgree : Option Predicate → Option Predicate → Bool
  | none, none => true
  | some p, some q => p.agrees q
  | _, _ => false

/-- Whether two queries count as equal. -/
def agrees (x y : AddressedQuery) : Bool :=
  let m := x.query.node
  let n := y.query.node
  x.provider == y.provider && m.type == n.type && m.propertyIds.toList == n.propertyIds.toList &&
    m.keyMap.entries == n.keyMap.entries && filtersAgree m.userPredicate n.userPredicate &&
    m.page == n.page

/-- The data from which the hash of a query is computed. -/
def fingerprint (x : AddressedQuery) : Fingerprint :=
  let n := x.query.node
  [.number x.provider, .text n.type.name] ++
    Fingerprint.ofList (fun id => [.text id.text]) n.propertyIds.toList ++ n.keyMap.fingerprint ++
    Fingerprint.ofOption Predicate.fingerprint n.userPredicate ++
    Fingerprint.ofOption PageRequest.fingerprint n.page

/-- The first occurrences of the queries of a list. -/
def distinct (xs : List AddressedQuery) : List AddressedQuery :=
  Distinct.firsts fingerprint agrees xs

end AddressedQuery
end ResourceQuery
