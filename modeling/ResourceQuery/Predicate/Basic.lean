import ResourceQuery.Resource

/-!
# Predicates

A predicate compares properties with values and joins such comparisons by conjunction and
disjunction.  Nothing is simplified except that a composite of one operand is that operand
and a composite of none is no predicate at all.
-/

namespace ResourceQuery

/-- A condition on the properties of a resource. -/
inductive Predicate where
  | equals (id : PropertyId) (value : Json)
  | all (operands : List Predicate)
  | any (operands : List Predicate)

namespace Predicate

instance : Inhabited Predicate := ⟨.all []⟩

/-- Join operands, without a composite around fewer than two. -/
def collapse (wrap : List Predicate → Predicate) : List Predicate → Option Predicate
  | [] => none
  | [p] => some p
  | ps => some (wrap ps)

/-- The condition that all operands hold. -/
def conjunction : List Predicate → Option Predicate := collapse .all

/-- The condition that some operand holds. -/
def disjunction : List Predicate → Option Predicate := collapse .any

/-- The operands of a composite. -/
def operands : Predicate → List Predicate
  | .equals _ _ => []
  | .all ops => ops
  | .any ops => ops

mutual

/-- The ids of the compared properties, in the order of the text. -/
def mentioned : Predicate → List PropertyId
  | .equals id _ => [id]
  | .all ops => mentionedIn ops
  | .any ops => mentionedIn ops

/-- The ids of the properties that operands compare. -/
def mentionedIn : List Predicate → List PropertyId
  | [] => []
  | p :: ps => p.mentioned ++ mentionedIn ps

end

/-- The set of the compared properties. -/
def propertyIds (p : Predicate) : SortedSet PropertyId := .ofList p.mentioned

mutual

/-- The comparisons that hold whenever the predicate does: those that stand under
conjunctions only. -/
def required : Predicate → List (PropertyId × Json)
  | .equals id value => [(id, value)]
  | .all ops => requiredIn ops
  | .any _ => []

/-- The comparisons that hold whenever all operands do. -/
def requiredIn : List Predicate → List (PropertyId × Json)
  | [] => []
  | p :: ps => p.required ++ requiredIn ps

end

/-- The text of a compared value: a string as it is, other values as JSON text. -/
def valueText : Json → String
  | .string s => s
  | value => value.text

mutual

/-- The predicate in words. -/
def display : Predicate → String
  | .equals id value => id.text ++ "=" ++ valueText value
  | .all ops => "(" ++ String.intercalate " AND " (displayAll ops) ++ ")"
  | .any ops => "(" ++ String.intercalate " OR " (displayAll ops) ++ ")"

/-- Operands in words. -/
def displayAll : List Predicate → List String
  | [] => []
  | p :: ps => p.display :: displayAll ps

end

mutual

/-- Agreement of predicates: the same shape and ids, with agreeing values. -/
def agrees : Predicate → Predicate → Bool
  | .equals id value, .equals id' value' => id == id' && value.agrees value'
  | .all ps, .all qs => agreesAll ps qs
  | .any ps, .any qs => agreesAll ps qs
  | _, _ => false

/-- Agreement of operands, place by place. -/
def agreesAll : List Predicate → List Predicate → Bool
  | [], [] => true
  | p :: ps, q :: qs => p.agrees q && agreesAll ps qs
  | _, _ => false

end

mutual

/-- The data from which the hash of a predicate is computed. -/
def fingerprint : Predicate → Fingerprint
  | .equals id value => [.number 0, .text id.text, .text value.text]
  | .all ops => .number 1 :: .number ops.length :: fingerprintAll ops
  | .any ops => .number 2 :: .number ops.length :: fingerprintAll ops

/-- The data of operands, one after the other. -/
def fingerprintAll : List Predicate → Fingerprint
  | [] => []
  | p :: ps => p.fingerprint ++ fingerprintAll ps

end

/-- The first occurrences of the predicates of a list. -/
def distinct (ps : List Predicate) : List Predicate := Distinct.firsts fingerprint agrees ps

theorem mentionedIn_eq (ps : List Predicate) : mentionedIn ps = ps.flatMap mentioned := by
  induction ps with
  | nil => rfl
  | cons p ps ih => simp [mentionedIn, ih]

end Predicate
end ResourceQuery
