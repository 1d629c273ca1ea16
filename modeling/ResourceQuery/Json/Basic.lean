import ResourceQuery.Collection.Entries
import ResourceQuery.Number.Binary64

/-!
# JSON values

A number is either an exact integer or a finite double; the two kinds never agree, even when
they denote the same number.  The fields of an object are kept in the order of their names.
Besides equality there is a coarser agreement of values, which compares doubles numerically
and so identifies the two zeros.
-/

namespace ResourceQuery

/-- A JSON number. -/
inductive Number where
  | int (value : Int)
  | float (value : Binary64)
deriving DecidableEq

namespace Number

/-- Agreement of numbers: integers exactly, doubles by numerical value. -/
def agrees : Number → Number → Bool
  | .int a, .int b => a == b
  | .float x, .float y => x.sameValue y
  | _, _ => false

/-- The double nearest to the number. -/
def toBinary64 : Number → Binary64
  | .int i => Binary64.ofInt i
  | .float x => x

end Number

/-- A JSON value. -/
inductive Json where
  | null
  | bool (value : Bool)
  | number (value : Number)
  | string (value : String)
  | array (items : List Json)
  /-- Named values, in the order of their names. -/
  | object (fields : List (String × Json))

namespace Json

instance : Inhabited Json := ⟨.null⟩

/-- The object with the given fields; of two fields with one name the later counts. -/
def ofFields (fields : List (String × Json)) : Json := .object (Entries.ofList fields)

/-- The JSON number of a natural number. -/
def ofNat (n : Nat) : Json := .number (.int n)

/-- Whether the value is `null`. -/
def isNull : Json → Bool
  | .null => true
  | _ => false

mutual

/-- Agreement of values: of the same kind throughout, with agreeing numbers. -/
def agrees : Json → Json → Bool
  | .null, .null => true
  | .bool a, .bool b => a == b
  | .number m, .number n => m.agrees n
  | .string s, .string t => s == t
  | .array xs, .array ys => agreesItems xs ys
  | .object xs, .object ys => agreesFields xs ys
  | _, _ => false

/-- Agreement of lists, place by place. -/
def agreesItems : List Json → List Json → Bool
  | [], [] => true
  | x :: xs, y :: ys => x.agrees y && agreesItems xs ys
  | _, _ => false

/-- Agreement of fields: the same names with agreeing values. -/
def agreesFields : List (String × Json) → List (String × Json) → Bool
  | [], [] => true
  | (k, x) :: xs, (l, y) :: ys => k == l && x.agrees y && agreesFields xs ys
  | _, _ => false

end

end Json
end ResourceQuery
