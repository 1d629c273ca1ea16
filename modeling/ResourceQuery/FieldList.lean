import ResourceQuery.Request
import ResourceQuery.Text.Blank
import ResourceQuery.Text.Integer

/-!
# Field lists

A field list selects properties in one line of text:

    Hosts/host_name,host_components/HostRoles/state,metrics/cpu[1700000000,1700003600,60],*

Commas outside brackets separate the fields; white space around a field is dropped, and so is
a field of white space alone.  The last separator of a field ends its category.  Brackets at
the end hold a time range: start, end and step in seconds, the last two optional.
-/

namespace ResourceQuery

/-- One selected field. -/
structure FieldSelection where
  /-- What stands before the last separator. -/
  category : Option String
  /-- What stands after it. -/
  name : String
  range : Option TimeRange
deriving DecidableEq

namespace FieldList

/-- What can be wrong with a field list. -/
inductive Fault where
  /-- A bracket is closed that was not opened. -/
  | unbalanced
  /-- A bracket is not closed. -/
  | unclosed
  /-- A field does not end with its bracket. -/
  | textAfterRange
  /-- A value of a time range is no integer. -/
  | badRange (inner : String) (cause : IntegerFault)
  /-- A time range has more than three values. -/
  | valueCount (inner : String)
  | negativeStep
  | timeOutOfRange
  | emptyName (field : String)
deriving DecidableEq

/-- A fault in words. -/
def Fault.reason : Fault → String
  | .unbalanced => "unbalanced ']'"
  | .unclosed => "unclosed '['"
  | .textAfterRange => "text after ']'"
  | .badRange inner cause => "bad time range '" ++ inner ++ "': " ++ cause.message
  | .valueCount inner => "expected 1 to 3 values in '[" ++ inner ++ "]'"
  | .negativeStep => "negative step"
  | .timeOutOfRange => "time out of range"
  | .emptyName field => "empty name in '" ++ field ++ "'"

/-- Put a character in front of the first piece. -/
def prepend (c : Char) : List (List Char) → List (List Char)
  | [] => [[c]]
  | piece :: pieces => (c :: piece) :: pieces

/-- Cut a text at the commas that stand outside brackets, when `depth` brackets are open. -/
def cut (depth : Nat) : List Char → Except Fault (List (List Char))
  | [] => if depth = 0 then .ok [[]] else .error .unclosed
  | '[' :: cs => (cut (depth + 1) cs).map (prepend '[')
  | ']' :: cs => if depth = 0 then .error .unbalanced else (cut (depth - 1) cs).map (prepend ']')
  | c :: cs =>
    if c = ',' ∧ depth = 0 then (cut depth cs).map ([] :: ·)
    else (cut depth cs).map (prepend c)

/-- The text before the last character, when that is a closing bracket. -/
def withoutClosing? (cs : List Char) : Option (List Char) :=
  if cs.getLast? = some ']' then some cs.dropLast else none

/-- The time range of one to three values. -/
def rangeOfValues (inner : String) : List Int → Except Fault TimeRange
  | [start] => ofSeconds start none none
  | [start, stop] => ofSeconds start (some stop) none
  | [start, stop, step] =>
    if step < 0 then .error .negativeStep else ofSeconds start (some stop) (some step.toNat)
  | _ => .error (.valueCount inner)
where
  ofSeconds (start : Int) (stop : Option Int) (step : Option Nat) : Except Fault TimeRange :=
    match TimeRange.ofSeconds? start stop step with
    | some range => .ok range
    | none => .error .timeOutOfRange

/-- The time range written between brackets. -/
def parseRange (inner : List Char) : Except Fault TimeRange := do
  let text := String.ofList inner
  let values ← ((Split.all ',' inner).mapM fun value => Integer.signed64 (trim value)).mapError
    (Fault.badRange text)
  rangeOfValues text values

/-- The field written in a text without white space around it. -/
def parseField (field : List Char) : Except Fault FieldSelection := do
  let (path, range) ← match Split.first? '[' field with
    | none => .ok (field, none)
    | some (path, rest) =>
      match withoutClosing? rest with
      | none => .error .textAfterRange
      | some inner => (parseRange inner).map fun range => (path, some range)
  let (category, name) := (PropertyId.mk (String.ofList path)).split
  if name.isEmpty then .error (.emptyName (String.ofList field))
  else .ok ⟨category, name, range⟩

/-- The fields of a list, in order. -/
def parse (text : String) : Except Fault (List FieldSelection) := do
  let pieces ← cut 0 text.toList
  ((pieces.map trim).filter (¬ ·.isEmpty)).mapM parseField

end FieldList
end ResourceQuery
