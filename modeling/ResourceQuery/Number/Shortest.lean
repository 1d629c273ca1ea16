import ResourceQuery.Number.Binary64

/-!
# The shortest decimal that reads back

A double stands for an interval of real numbers, those that round to it.  Its decimal form
has the fewest digits of all decimals in that interval, and of those it is the nearest to the
double.  `Decimal.text` then lays the digits out: with a decimal point while the leading digit
stands between the fifth place after the point and the sixteenth before it, otherwise with an
exponent.
-/

namespace ResourceQuery

/-- A positive decimal number `digits * 10 ^ exponent`. -/
structure Decimal where
  /-- The digits, read as a number. -/
  digits : Nat
  /-- The power of ten that scales them. -/
  exponent : Int
deriving DecidableEq

namespace Binary64

/-! Magnitudes are counted here in quarters of the least unit, so that the ends of the
interval of a double are whole numbers.  A decimal `d * 10 ^ k` is compared with them after
both are multiplied by `scaleOf k`. -/

/-- The magnitude in quarters of the least unit. -/
def quarters (x : Binary64) : Nat := x.magnitude <<< 2

/-- The lower end of the interval that rounds to the number; the neighbour below a power of
two is only half as far away. -/
def lowerEnd (x : Binary64) : Nat :=
  if x.significand = 1 <<< 52 ∧ 0 < x.exponent then x.quarters - 1 <<< x.exponent
  else x.quarters - 2 <<< x.exponent

/-- The upper end of the interval that rounds to the number. -/
def upperEnd (x : Binary64) : Nat := x.quarters + 2 <<< x.exponent

/-- One unit, in quarters of the least unit of a double. -/
def one : Nat := 1 <<< 1076

/-- Numerator and denominator by which `quarters` is multiplied to count it in units of
`10 ^ k`. -/
def inPowersOfTen (k : Int) (quarters : Nat) : Nat × Nat :=
  match k with
  | .ofNat k => (quarters, one * Nat.pow 10 k)
  | .negSucc k => (quarters * Nat.pow 10 (k + 1), one)

/-- The exponent of the leading decimal digit of a positive number of quarters.  The number
is scaled up by `10 ^ 400`, which makes it at least one, and its digits are counted. -/
def leadingExponent (quarters : Nat) : Int :=
  ((Nat.toDigits 10 (quarters * Nat.pow 10 400 / one)).length : Int) - 401

/-- Whether a decimal rounds to the number; the ends count when the significand is even. -/
def roundsTo (x : Binary64) (d : Decimal) : Bool :=
  let (low, den) := inPowersOfTen d.exponent x.lowerEnd
  let (high, _) := inPowersOfTen d.exponent x.upperEnd
  if x.significand % 2 = 0 then low ≤ d.digits * den && d.digits * den ≤ high
  else low < d.digits * den && d.digits * den < high

/-- The decimal on the grid of `10 ^ k` that rounds to the number, if one of its two
neighbours there does: the nearer one, and of two equally near ones the even one. -/
def onGrid? (x : Binary64) (k : Int) : Option Decimal :=
  let (num, den) := inPowersOfTen k x.quarters
  let below : Decimal := ⟨num / den, k⟩
  let above : Decimal := ⟨num / den + 1, k⟩
  match x.roundsTo below, x.roundsTo above with
  | true, true => some ⟨roundDiv num den, k⟩
  | true, false => some below
  | false, true => some above
  | false, false => none

/-- The decimal with the fewest digits that rounds to a positive number.  Seventeen digits
always suffice. -/
def shortest (x : Binary64) : Decimal :=
  let lead := leadingExponent x.quarters
  ((List.range 17).findSome? fun (n : Nat) => x.onGrid? (lead - n)).getD ⟨0, 0⟩

end Binary64

namespace Decimal

/-- Digits from the leading one on, without zeros at the end, and the place of the decimal
point counted from the first digit. -/
def layout (d : Decimal) : List Char × Int :=
  let digits := Nat.toDigits 10 d.digits
  ((digits.reverse.dropWhile (· = '0')).reverse, digits.length + d.exponent)

/-- The characters of a positive decimal. -/
def text (d : Decimal) : List Char :=
  let (digits, point) := d.layout
  if -5 < point ∧ point ≤ 16 then
    if point ≤ 0 then '0' :: '.' :: List.replicate (-point).toNat '0' ++ digits
    else if digits.length ≤ point.toNat then
      digits ++ List.replicate (point.toNat - digits.length) '0' ++ ['.', '0']
    else digits.take point.toNat ++ '.' :: digits.drop point.toNat
  else
    let exponent := point - 1
    let mantissa := match digits with
      | d :: e :: rest => d :: '.' :: e :: rest
      | ds => ds
    let sign := if exponent < 0 then '-' else '+'
    mantissa ++ 'e' :: sign :: Nat.toDigits 10 exponent.natAbs

end Decimal

/-- The text of a double: the shortest digits that read back, `0.0` for zero, and the sign in
front. -/
def Binary64.text (x : Binary64) : String :=
  let digits := if x.isZero then ['0', '.', '0'] else x.shortest.text
  String.ofList (if x.negative then '-' :: digits else digits)

end ResourceQuery
