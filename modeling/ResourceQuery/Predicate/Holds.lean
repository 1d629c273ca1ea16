import ResourceQuery.Predicate.Basic

/-!
# When a predicate holds of a resource

A value equals another when they agree or have the same text as keys, so that the key `"8"`
finds the number `8`.  A property that is missing or `null` equals nothing.
-/

namespace ResourceQuery
namespace Predicate

/-- Whether a stored value counts as equal to an expected one. -/
def valueMatches (actual expected : Json) : Bool :=
  match actual.keyText with
  | none => false
  | some key => actual.agrees expected || expected.keyText == some key

mutual

/-- Whether the predicate holds of a resource. -/
def holds (r : Resource) : Predicate → Bool
  | .equals id expected =>
    match r.value? id with
    | some actual => valueMatches actual expected
    | none => false
  | .all ops => allHold r ops
  | .any ops => anyHolds r ops

/-- Whether every operand holds. -/
def allHold (r : Resource) : List Predicate → Bool
  | [] => true
  | p :: ps => p.holds r && allHold r ps

/-- Whether some operand holds. -/
def anyHolds (r : Resource) : List Predicate → Bool
  | [] => false
  | p :: ps => p.holds r || anyHolds r ps

end

/-- Whether a resource passes an optional predicate; without one everything passes. -/
def admits (p : Option Predicate) (r : Resource) : Bool :=
  match p with
  | some p => p.holds r
  | none => true

theorem allHold_eq (r : Resource) (ps : List Predicate) : allHold r ps = ps.all (holds r) := by
  induction ps with
  | nil => rfl
  | cons p ps ih => simp [allHold, ih]

theorem anyHolds_eq (r : Resource) (ps : List Predicate) : anyHolds r ps = ps.any (holds r) := by
  induction ps with
  | nil => rfl
  | cons p ps ih => simp [anyHolds, ih]

end Predicate
end ResourceQuery
