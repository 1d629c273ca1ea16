import ResourceQuery.Json.Basic
import ResourceQuery.Number.Limits

/-!
# Numerals

A numeral is the text of a JSON number taken apart: sign, digits before the point, digits
after it, exponent.  Without point and exponent it denotes an exact integer when that fits
into 64 bits, signed or unsigned; every other numeral denotes a double.  The digits of a
double are gathered into a whole number of at most 64 bits, later digits only count for the
power of ten or not at all.
-/

namespace ResourceQuery

/-- The parts of a written number. -/
structure Numeral where
  /-- Whether a minus sign stands in front. -/
  negative : Bool
  whole : List Nat
  /-- The digits after the point, if there is one. -/
  fraction : Option (List Nat)
  /-- Whether the exponent is negative, and its digits, if there is one. -/
  exponent : Option (Bool × List Nat)

namespace Numeral

/-- The value of a decimal digit. -/
def digit? (c : Char) : Option Nat := if c.isDigit then some (c.toNat - '0'.toNat) else none

/-- The digits at the front of a text, and what follows them. -/
def digits (cs : List Char) : List Nat × List Char :=
  ((cs.takeWhile Char.isDigit).filterMap digit?, cs.dropWhile Char.isDigit)

/-- At least one digit, and what follows. -/
def someDigits? (cs : List Char) : Option (List Nat × List Char) :=
  match digits cs with
  | ([], _) => none
  | found => some found

/-- The digits before the point: no zero stands in front of another digit. -/
def whole? (cs : List Char) : Option (List Nat × List Char) :=
  match someDigits? cs with
  | some (0 :: _ :: _, _) => none
  | found => found

/-- The part after the point, if there is a point. -/
def fraction? : List Char → Option (Option (List Nat) × List Char)
  | '.' :: cs => (someDigits? cs).map fun (ds, rest) => (some ds, rest)
  | cs => some (none, cs)

/-- The sign in front of the digits of an exponent: whether it is a minus. -/
def exponentSign : List Char → Bool × List Char
  | '-' :: cs => (true, cs)
  | '+' :: cs => (false, cs)
  | cs => (false, cs)

/-- The exponent, if there is one. -/
def exponent? : List Char → Option (Option (Bool × List Nat) × List Char)
  | 'e' :: cs | 'E' :: cs =>
    let (minus, cs) := exponentSign cs
    (someDigits? cs).map fun (ds, rest) => (some (minus, ds), rest)
  | cs => some (none, cs)

/-- Take a written number apart; `none` when the text is not a number. -/
def ofChars? (cs : List Char) : Option Numeral := do
  let (negative, cs) := match cs with
    | '-' :: cs => (true, cs)
    | cs => (false, cs)
  let (whole, cs) ← whole? cs
  let (fraction, cs) ← fraction? cs
  let (exponent, cs) ← exponent? cs
  if cs.isEmpty then some ⟨negative, whole, fraction, exponent⟩ else none

/-- Append digits to a number while it stays within `limit`; the digits that are left over
come back too. -/
def gather (limit : Nat) (n : Nat) : List Nat → Nat × List Nat
  | [] => (n, [])
  | d :: ds => if n * 10 + d ≤ limit then gather limit (n * 10 + d) ds else (n, d :: ds)

/-- The power of ten after adding a written exponent to the one that the digits gave, kept
within 32 bits. -/
def addExponent (start : Int) (minus : Bool) (e : Nat) : Int :=
  if minus then max (start - e) (-(Limits.signed32 + 1 : Int))
  else min (start + e) Limits.signed32

/-- A double with the sign of the numeral. -/
def withSign (x : Numeral) (value : Binary64) : Number :=
  .float (if x.negative then value.neg else value)

/-- The double that a numeral denotes; `none` when it is infinite. -/
def float? (x : Numeral) : Option Number := do
  let (n, dropped) := gather Limits.unsigned64 0 x.whole
  let fraction := x.fraction.getD []
  let (n, ignored) := gather Limits.unsigned64 n fraction
  let start : Int := dropped.length - (fraction.length - ignored.length : Nat)
  match x.exponent with
  | none => (Binary64.ofScientific? n start).map x.withSign
  | some (minus, ds) =>
    match gather Limits.signed32 0 ds with
    | (e, []) => (Binary64.ofScientific? n (addExponent start minus e)).map x.withSign
    | _ => if n = 0 ∨ minus then some (x.withSign .zero) else none

/-- The number that a numeral denotes; `none` when it is a double out of range. -/
def value? (x : Numeral) : Option Number :=
  match x.fraction, x.exponent, gather Limits.unsigned64 0 x.whole with
  | none, none, (n, []) =>
    if x.negative then
      if n = 0 ∨ Limits.signed64 + 1 < n then x.float? else some (.int (-(n : Int)))
    else some (.int n)
  | _, _, _ => x.float?

end Numeral
end ResourceQuery
