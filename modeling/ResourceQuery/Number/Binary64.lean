/-!
# Finite double-precision numbers, exactly

A finite double is a sign and a magnitude `significand * 2 ^ exponent`, counted in units of
the least positive double `2 ^ -1074`.  Nothing here rests on machine arithmetic: a rational
number is rounded to the nearest double by division with remainder, and doubles are compared
through the integer `scaled`.

The main statements bound what rounding returns, so that the result is a double in its one
canonical form unless it is too large.
-/

namespace ResourceQuery

/-- A finite double-precision number in canonical form. -/
structure Binary64 where
  /-- Whether the number carries a minus sign; zero may. -/
  negative : Bool
  /-- The leading bits, at most 53 of them. -/
  significand : Nat
  /-- The magnitude is `significand * 2 ^ exponent` units of `2 ^ -1074`. -/
  exponent : Nat
  significand_lt : significand < 1 <<< 53
  /-- The significand has all its 53 bits unless the unit is already the least one. -/
  normal : exponent = 0 ∨ 1 <<< 52 ≤ significand
  /-- Beyond this exponent numbers are infinite. -/
  exponent_le : exponent ≤ 2045
deriving DecidableEq

namespace Binary64

/-- Positive zero. -/
def zero : Binary64 := ⟨false, 0, 0, by decide, .inl rfl, by decide⟩

/-- The number with the other sign. -/
def neg (x : Binary64) : Binary64 := { x with negative := !x.negative }

/-- The magnitude in units of `2 ^ -1074`. -/
def magnitude (x : Binary64) : Nat := x.significand <<< x.exponent

/-- The signed value in units of `2 ^ -1074`; both zeros give `0`. -/
def scaled (x : Binary64) : Int := if x.negative then -(x.magnitude : Int) else x.magnitude

/-- Whether the number is a zero of either sign. -/
def isZero (x : Binary64) : Bool := x.significand == 0

/-- Numerical comparison. -/
def order (x y : Binary64) : Ordering := compare x.scaled y.scaled

/-- Numerical equality: the two zeros are equal. -/
def sameValue (x y : Binary64) : Bool := x.scaled == y.scaled

/-! ## Rounding -/

/-- The exponent at which a magnitude of `n` units, rounded down, has 53 bits. -/
def exponentFor (n : Nat) : Nat := n.log2 - 52

/-- Divide and round to the nearest integer, a half to the even neighbour. -/
def roundDiv (a b : Nat) : Nat :=
  let q := a / b
  let r := a % b
  if b < 2 * r ∨ (2 * r = b ∧ q % 2 = 1) then q + 1 else q

theorem le_roundDiv (a b : Nat) : a / b ≤ roundDiv a b := by
  simp only [roundDiv]
  split <;> omega

theorem roundDiv_le (a b : Nat) : roundDiv a b ≤ a / b + 1 := by
  simp only [roundDiv]
  split <;> omega

/-- Significand and exponent of the double nearest to `num / den` units, before any limit on
the exponent.  A significand that rounds up to `2 ^ 53` is halved. -/
def roundUnits (num den : Nat) : Nat × Nat :=
  let e := exponentFor (num / den)
  let s := roundDiv num (den <<< e)
  if s = 1 <<< 53 then (1 <<< 52, e + 1) else (s, e)

theorem roundUnits_lt (num den : Nat) : (roundUnits num den).1 < 1 <<< 53 := by
  simp only [roundUnits]
  split
  · show 1 <<< 52 < 1 <<< 53
    decide
  · rename_i hne
    have hle := roundDiv_le num (den <<< exponentFor (num / den))
    have hq : num / (den <<< exponentFor (num / den)) < 1 <<< 53 := by
      rw [Nat.shiftLeft_eq 1, Nat.one_mul, Nat.shiftLeft_eq, ← Nat.div_div_eq_div_mul]
      have hlog := @Nat.lt_log2_self (num / den)
      refine Nat.div_lt_of_lt_mul ?_
      rw [← Nat.pow_add]
      refine Nat.lt_of_lt_of_le hlog (Nat.pow_le_pow_right (by decide) ?_)
      simp only [exponentFor]
      omega
    show roundDiv num (den <<< exponentFor (num / den)) < 1 <<< 53
    omega

theorem roundUnits_normal (num den : Nat) :
    (roundUnits num den).2 = 0 ∨ 1 <<< 52 ≤ (roundUnits num den).1 := by
  simp only [roundUnits]
  split
  · exact .inr (Nat.le_refl _)
  · by_cases he : exponentFor (num / den) = 0
    · exact .inl he
    · refine .inr (Nat.le_trans ?_ (le_roundDiv _ _))
      rw [Nat.shiftLeft_eq 1, Nat.one_mul, Nat.shiftLeft_eq, ← Nat.div_div_eq_div_mul]
      have hne : num / den ≠ 0 := fun h => he (by simp [exponentFor, h])
      have hlog := Nat.log2_self_le hne
      rw [Nat.le_div_iff_mul_le (Nat.two_pow_pos _), ← Nat.pow_add]
      refine Nat.le_trans (Nat.pow_le_pow_right (by decide) ?_) hlog
      simp only [exponentFor] at he ⊢
      omega

/-- The double nearest to `num / den` units of `2 ^ -1074`, ties to the even significand;
`none` when that is infinite. -/
def round? (num den : Nat) : Option Binary64 :=
  if h : (roundUnits num den).2 ≤ 2045 then
    some ⟨false, (roundUnits num den).1, (roundUnits num den).2, roundUnits_lt num den,
      roundUnits_normal num den, h⟩
  else none

/-- The double nearest to a natural number. -/
def ofNat? (n : Nat) : Option Binary64 := round? (n <<< 1074) 1

/-- The double nearest to an integer; integers of 64 bits are all in range. -/
def ofInt (i : Int) : Binary64 :=
  let x := (ofNat? i.natAbs).getD zero
  if i < 0 then x.neg else x

/-- The product of two magnitudes, rounded. -/
def mul? (x y : Binary64) : Option Binary64 := round? (x.magnitude * y.magnitude) (1 <<< 1074)

/-- The quotient of two magnitudes, rounded. -/
def div? (x y : Binary64) : Option Binary64 := round? (x.magnitude <<< 1074) y.magnitude

/-! ## Scaling by powers of ten -/

/-- The greatest power of ten that is a finite double. -/
def maxPowerOfTen : Nat := 308

/-- A power of ten, rounded to a double. -/
def powerOfTen? (k : Nat) : Option Binary64 := ofNat? (Nat.pow 10 k)

/-- Multiply by a power of ten; `none` when the result is infinite. -/
def scaleUp? (x : Binary64) (k : Nat) : Option Binary64 :=
  if k ≤ maxPowerOfTen then do mul? x (← powerOfTen? k)
  else if x.isZero then some x
  else none

/-- Divide by a power of ten, in steps of `10 ^ 308`; each step rounds, and a number that has
become zero stays zero. -/
def scaleDown? (x : Binary64) (k : Nat) : Option Binary64 :=
  if k ≤ maxPowerOfTen then do div? x (← powerOfTen? k)
  else if x.isZero then some x
  else do scaleDown? (← div? x (← powerOfTen? maxPowerOfTen)) (k - maxPowerOfTen)
termination_by k
decreasing_by simp only [maxPowerOfTen] at *; omega

/-- The double read from a whole number of at most 64 bits times a power of ten.  The whole
number is rounded first and the scaling rounds again, so the result can differ from the
nearest double in the last bit. -/
def ofScientific? (significand : Nat) (exponent : Int) : Option Binary64 := do
  let x ← ofNat? significand
  match exponent with
  | .ofNat k => x.scaleUp? k
  | .negSucc k => x.scaleDown? (k + 1)

end Binary64
end ResourceQuery
