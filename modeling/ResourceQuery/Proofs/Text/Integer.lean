import ResourceQuery.Proofs.Except
import ResourceQuery.Text.Integer

/-!
# The texts that are integers

A text is read as an integer exactly when it consists of decimal digits, with or without a sign in
front, and their value lies within the bounds.  Reading from left to right and giving up as soon as
the value passes the limit makes no difference to this, because further digits never make it
smaller.
-/

namespace ResourceQuery
namespace Integer

/-- Decimal digits, at least one, that stand for a number. -/
structure IsDecimal (cs : List Char) (n : Nat) : Prop where
  ne_nil : cs ≠ []
  digits : ∀ c ∈ cs, c.isDigit = true
  value : Nat.ofDigitChars 10 cs 0 = n

/-- Decimal digits, with or without a sign, that stand for an integer. -/
inductive IsSigned : List Char → Int → Prop where
  | bare {cs : List Char} {n : Nat} (h : IsDecimal cs n) : IsSigned cs n
  | plus {cs : List Char} {n : Nat} (h : IsDecimal cs n) : IsSigned ('+' :: cs) n
  | minus {cs : List Char} {n : Nat} (h : IsDecimal cs n) : IsSigned ('-' :: cs) (-n)

/-- A signed decimal of 64 bits. -/
def IsSigned64 (cs : List Char) (z : Int) : Prop :=
  IsSigned cs z ∧ -(Limits.signed64 + 1 : Int) ≤ z ∧ z ≤ Limits.signed64

variable {limit n m : Nat} {beyond : IntegerFault} {cs : List Char} {c : Char} {z : Int}

/-! ## Digits -/

theorem le_ofDigitChars (cs : List Char) (n : Nat) : n ≤ Nat.ofDigitChars 10 cs n := by
  induction cs generalizing n with
  | nil => exact Nat.le_of_eq Nat.ofDigitChars_nil.symm
  | cons c cs ih =>
    rw [Nat.ofDigitChars_cons]
    refine Nat.le_trans ?_ (ih _)
    omega

theorem readDigits_eq_ok_iff (hn : n ≤ limit) : readDigits limit beyond n cs = .ok m ↔
    (∀ c ∈ cs, c.isDigit = true) ∧ Nat.ofDigitChars 10 cs n = m ∧ m ≤ limit := by
  induction cs generalizing n with
  | nil =>
    simp only [readDigits, Except.ok.injEq, Nat.ofDigitChars_nil]
    constructor
    · rintro rfl
      exact ⟨nofun, rfl, hn⟩
    · exact fun h => h.2.1
  | cons c cs ih =>
    by_cases hc : c.isDigit = true
    · have hdigit : Numeral.digit? c = some (c.toNat - '0'.toNat) := if_pos hc
      simp only [readDigits, hdigit, Nat.ofDigitChars_cons, List.forall_mem_cons, hc, true_and,
        Nat.mul_comm 10 n]
      split
      · rename_i hle
        exact ih hle
      · rename_i hgt
        -- The value that is passed over is already beyond the limit.
        have hle := le_ofDigitChars cs (n * 10 + (c.toNat - '0'.toNat))
        refine iff_of_false nofun ?_
        rintro ⟨-, rfl, hm⟩
        exact hgt (Nat.le_trans hle hm)
    · simp [readDigits, Numeral.digit?, hc]

theorem readNumber_eq_ok_iff :
    readNumber limit beyond cs = .ok n ↔ IsDecimal cs n ∧ n ≤ limit := by
  cases cs with
  | nil => exact iff_of_false nofun fun h => h.1.ne_nil rfl
  | cons c cs =>
    have hread : readNumber limit beyond (c :: cs) = readDigits limit beyond 0 (c :: cs) := rfl
    rw [hread, readDigits_eq_ok_iff (Nat.zero_le limit)]
    constructor
    · rintro ⟨hdigits, hvalue, hle⟩
      exact ⟨⟨List.cons_ne_nil c cs, hdigits, hvalue⟩, hle⟩
    · rintro ⟨h, hle⟩
      exact ⟨h.digits, h.value, hle⟩

/-! ## Signs -/

theorem map_readNumber_eq_ok_iff {f : Nat → Int} :
    (readNumber limit beyond cs).map f = .ok z ↔ ∃ n, IsDecimal cs n ∧ n ≤ limit ∧ f n = z := by
  simp only [map_eq_ok_iff, readNumber_eq_ok_iff, and_assoc]

/-- Digits without a sign, or after a plus sign. -/
theorem positive_eq_ok_iff : (readNumber Limits.signed64 beyond cs).map Int.ofNat = .ok z ↔
    (∃ n : Nat, IsDecimal cs n ∧ z = n) ∧
      -(Limits.signed64 + 1 : Int) ≤ z ∧ z ≤ Limits.signed64 := by
  rw [map_readNumber_eq_ok_iff, ← exists_and_right]
  refine exists_congr fun n => Iff.trans (and_congr_right fun _ => ?_) and_assoc.symm
  simp only [Limits.signed64, Int.ofNat_eq_natCast]
  omega

theorem negative_eq_ok_iff :
    (readNumber (Limits.signed64 + 1) beyond cs).map (fun n => -(n : Int)) = .ok z ↔
      (∃ n : Nat, IsDecimal cs n ∧ z = -n) ∧
        -(Limits.signed64 + 1 : Int) ≤ z ∧ z ≤ Limits.signed64 := by
  -- With no type on the binder, the conversion to an integer is made first and negated after it.
  have hcast : (readNumber (Limits.signed64 + 1) beyond cs).map (fun n => -(n : Int)) =
      (readNumber (Limits.signed64 + 1) beyond cs).map fun n : Nat => -(n : Int) := by
    cases readNumber (Limits.signed64 + 1) beyond cs with
    | error fault => rfl
    | ok n => rfl
  rw [hcast, map_readNumber_eq_ok_iff, ← exists_and_right]
  refine exists_congr fun n => Iff.trans (and_congr_right fun _ => ?_) and_assoc.symm
  simp only [Limits.signed64]
  omega

theorem isSigned_nil : ¬ IsSigned [] z := by
  rintro ⟨h⟩
  exact h.ne_nil rfl

/-- Where the first character is no digit, it is a sign. -/
theorem isSigned_cons_iff (hc : c.isDigit = false) : IsSigned (c :: cs) z ↔
    ∃ n : Nat, IsDecimal cs n ∧ (c = '+' ∧ z = n ∨ c = '-' ∧ z = -n) := by
  constructor
  · rintro (h | h | h)
    · rw [h.digits c List.mem_cons_self] at hc
      cases hc
    · exact ⟨_, h, .inl ⟨rfl, rfl⟩⟩
    · exact ⟨_, h, .inr ⟨rfl, rfl⟩⟩
  · rintro ⟨n, h, ⟨rfl, rfl⟩ | ⟨rfl, rfl⟩⟩
    · exact .plus h
    · exact .minus h

/-- Where the first character is no sign, there is none. -/
theorem isSigned_iff (hminus : ∀ ds, cs ≠ '-' :: ds) (hplus : ∀ ds, cs ≠ '+' :: ds) :
    IsSigned cs z ↔ ∃ n : Nat, IsDecimal cs n ∧ z = n := by
  constructor
  · rintro (h | h | h)
    · exact ⟨_, h, rfl⟩
    · exact absurd rfl (hplus _)
    · exact absurd rfl (hminus _)
  · rintro ⟨n, h, rfl⟩
    exact .bare h

/-- The texts that are read as integers of 64 bits are the signed decimals of 64 bits. -/
theorem signed64_eq_ok_iff : signed64 cs = .ok z ↔ IsSigned64 cs z := by
  unfold signed64 IsSigned64
  split
  · exact iff_of_false nofun fun h => isSigned_nil h.1
  · rw [negative_eq_ok_iff, isSigned_cons_iff (by decide)]
    simp
  · rw [positive_eq_ok_iff, isSigned_cons_iff (by decide)]
    simp
  · rename_i hminus hplus
    rw [positive_eq_ok_iff, isSigned_iff hminus hplus]

end Integer
end ResourceQuery
