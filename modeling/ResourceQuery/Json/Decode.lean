import ResourceQuery.Json.Document

/-!
# Typed values from documents

A decoder takes a typed value out of a document and gives `none` when the document has
another shape.  A record is written as an object, whose unknown fields are passed over and
whose known fields occur at most once, or as an array of the fields' values in order.
-/

namespace ResourceQuery

/-- The named parts of a record that a document gives. -/
structure Parts where
  /-- Names and documents; no name occurs twice. -/
  given : List (String × Document)

namespace Document

/-- A text. -/
def string? : Document → Option String
  | .string s => s
  | _ => none

/-- A truth value. -/
def bool? : Document → Option Bool
  | .bool b => some b
  | _ => none

/-- A natural number of at most 64 bits, written as an integer. -/
def nat? : Document → Option Nat
  | .number (some (.int i)) => if 0 ≤ i ∧ i ≤ Limits.unsigned64 then some i.toNat else none
  | _ => none

/-- A signed integer of 64 bits, written as an integer. -/
def int? : Document → Option Int
  | .number (some (.int i)) =>
    if -(Limits.signed64 + 1 : Int) ≤ i ∧ i ≤ Limits.signed64 then some i else none
  | _ => none

variable {α κ : Type}

/-- A value that may be `null`. -/
def nullable? (decode : Document → Option α) : Document → Option (Option α)
  | .null => some none
  | d => (decode d).map some

/-- A list of values. -/
def list? (decode : Document → Option α) : Document → Option (List α)
  | .array depth items => if depth ≤ maxDepth then items.mapM decode else none
  | _ => none

/-- The fields of an object with keys and values decoded, in written order. -/
def pairs? (key : String → κ) (decode : Document → Option α) : Document → Option (List (κ × α))
  | .object depth fields =>
    if depth ≤ maxDepth then
      fields.mapM fun (name, d) => return (key (← name), ← decode d)
    else none
  | _ => none

/-- The only field of an object, or a text standing alone: the alternative that is chosen and
what it holds. -/
def choice? : Document → Option (String × Option Document)
  | .string name => name.map (·, none)
  | .object depth [(name, d)] => if depth ≤ maxDepth then name.map (·, some d) else none
  | _ => none

/-- The fields of a record that are known, when none of them occurs twice. -/
def knownFields? (names : List String) :
    List (Option String × Document) → Option (List (String × Document))
  | [] => some []
  | (name, d) :: rest => do
    let name ← name
    let found ← knownFields? names rest
    if ¬ name ∈ names then some found
    else if found.any (·.1 == name) then none
    else some ((name, d) :: found)

/-- The parts of a record with the given field names, written as an object. -/
def objectParts? (names : List String) : Document → Option Parts
  | .object depth fields =>
    if depth ≤ maxDepth then (knownFields? names fields).map .mk else none
  | _ => none

/-- The parts of a record with the given field names, written as an object or an array. -/
def parts? (names : List String) : Document → Option Parts
  | .array depth items =>
    if depth ≤ maxDepth ∧ items.length ≤ names.length then some ⟨names.zip items⟩ else none
  | d => d.objectParts? names

end Document

namespace Parts

variable {α : Type}

/-- A part that must be given. -/
def required? (p : Parts) (name : String) (decode : Document → Option α) : Option α :=
  p.given.lookup name >>= decode

/-- A part with a value for the case that it is not given. -/
def withDefault? (p : Parts) (name : String) (default : α) (decode : Document → Option α) :
    Option α :=
  match p.given.lookup name with
  | some d => decode d
  | none => some default

end Parts
end ResourceQuery
