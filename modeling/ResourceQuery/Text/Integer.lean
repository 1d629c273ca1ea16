import ResourceQuery.Json.Numeral

/-!
# Integers within bounds

A decimal integer may carry a sign.  Digits are read from left to right, and reading stops at
the first character that is no digit or that takes the value out of bounds; which of the two
comes first decides the fault.
-/

namespace ResourceQuery

/-- Why a text is no integer within bounds. -/
inductive IntegerFault where
  | empty
  | invalidDigit
  | tooLarge
  | tooSmall
deriving DecidableEq

namespace IntegerFault

/-- The fault in words. -/
def message : IntegerFault → String
  | .empty => "cannot parse integer from empty string"
  | .invalidDigit => "invalid digit found in string"
  | .tooLarge => "number too large to fit in target type"
  | .tooSmall => "number too small to fit in target type"

end IntegerFault

namespace Integer

/-- Read digits onto a number; `beyond` is the fault of a value over the limit. -/
def readDigits (limit : Nat) (beyond : IntegerFault) (n : Nat) :
    List Char → Except IntegerFault Nat
  | [] => .ok n
  | c :: cs =>
    match Numeral.digit? c with
    | none => .error .invalidDigit
    | some d =>
      if n * 10 + d ≤ limit then readDigits limit beyond (n * 10 + d) cs else .error beyond

/-- Read at least one digit. -/
def readNumber (limit : Nat) (beyond : IntegerFault) (cs : List Char) :
    Except IntegerFault Nat :=
  if cs.isEmpty then .error .invalidDigit else readDigits limit beyond 0 cs

/-- A signed integer of 64 bits. -/
def signed64 (cs : List Char) : Except IntegerFault Int :=
  match cs with
  | [] => .error .empty
  | '-' :: cs => (readNumber (Limits.signed64 + 1) .tooSmall cs).map fun n => -(n : Int)
  | '+' :: cs => (readNumber Limits.signed64 .tooLarge cs).map Int.ofNat
  | cs => (readNumber Limits.signed64 .tooLarge cs).map Int.ofNat

/-- An unsigned integer of 64 bits; only a plus sign is allowed. -/
def unsigned64 (cs : List Char) : Except IntegerFault Nat :=
  match cs with
  | [] => .error .empty
  | '+' :: cs => readNumber Limits.unsigned64 .tooLarge cs
  | cs => readNumber Limits.unsigned64 .tooLarge cs

end Integer
end ResourceQuery
