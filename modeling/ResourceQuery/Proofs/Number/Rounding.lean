import Mathlib.Algebra.Group.Nat.Defs
import ResourceQuery.Number.Binary64
import ResourceQuery.Number.Limits

/-!
# Rounding keeps the order

The double nearest to an integer is found by dividing with remainder, at an exponent that depends on
the integer.  At one exponent a greater number is rounded to no smaller one, and from one exponent
to the next the rounded numbers do not overlap, so the order of integers of 64 bits is never turned
round.  It can be lost: two integers may have the same nearest double.  Up to `2 ^ 53` that does not
happen, for there every integer is a double.
-/

namespace ResourceQuery
namespace Binary64

/-! ## Division -/

variable {a b d q n m : Nat}

theorem roundDiv_mono (h : a ≤ b) : roundDiv a d ≤ roundDiv b d := by
  have ha := Nat.div_add_mod a d
  have hb := Nat.div_add_mod b d
  have hle : a / d ≤ b / d := Nat.div_le_div_right h
  by_cases heq : a / d = b / d
  · -- With one quotient the greater number has the greater remainder.
    unfold roundDiv
    rw [heq] at ha ⊢
    simp only
    split
    · exact Nat.le_of_eq (if_pos (by omega)).symm
    · split <;> omega
  · have hup := roundDiv_le a d
    have hdown := le_roundDiv b d
    omega

theorem roundDiv_mul (h : 0 < d) (q : Nat) : roundDiv (q * d) d = q := by
  unfold roundDiv
  rw [Nat.mul_div_cancel q h, Nat.mul_mod_left]
  simp only
  rw [if_neg (by omega)]

/-! ## Magnitudes -/

/-- The magnitude to which a number of units is rounded. -/
def nearest (n : Nat) : Nat := roundDiv n (2 ^ exponentFor n) * 2 ^ exponentFor n

theorem exponentFor_mono (h : n ≤ m) : exponentFor n ≤ exponentFor m := by
  have hlog : n.log2 ≤ m.log2 := by
    by_cases hn : n = 0
    · rw [hn, Nat.log2_zero]
      exact Nat.zero_le _
    · exact (Nat.le_log2 (by omega)).2 (Nat.le_trans (Nat.log2_self_le hn) h)
  exact Nat.sub_le_sub_right hlog 52

theorem lt_of_exponentFor (n : Nat) : n < 2 ^ 53 * 2 ^ exponentFor n := by
  rw [← Nat.pow_add]
  refine Nat.lt_of_lt_of_le Nat.lt_log2_self (Nat.pow_le_pow_right (by decide) ?_)
  rw [exponentFor]
  omega

theorem le_of_exponentFor (h : exponentFor n ≠ 0) : 2 ^ 52 * 2 ^ exponentFor n ≤ n := by
  have hn : n ≠ 0 := by
    rintro rfl
    exact h (by rw [exponentFor, Nat.log2_zero, Nat.zero_sub])
  rw [← Nat.pow_add]
  refine Nat.le_trans (Nat.pow_le_pow_right (by decide) ?_) (Nat.log2_self_le hn)
  rw [exponentFor] at h ⊢
  omega

theorem nearest_le (n : Nat) : nearest n ≤ 2 ^ 53 * 2 ^ exponentFor n := by
  refine Nat.mul_le_mul_right _ ?_
  have hdiv := roundDiv_mono (d := 2 ^ exponentFor n) (Nat.le_of_lt (lt_of_exponentFor n))
  rwa [roundDiv_mul (Nat.two_pow_pos _)] at hdiv

theorem le_nearest (h : exponentFor n ≠ 0) : 2 ^ 52 * 2 ^ exponentFor n ≤ nearest n := by
  refine Nat.mul_le_mul_right _ ?_
  have hdiv := roundDiv_mono (d := 2 ^ exponentFor n) (le_of_exponentFor h)
  rwa [roundDiv_mul (Nat.two_pow_pos _)] at hdiv

theorem nearest_mono (h : n ≤ m) : nearest n ≤ nearest m := by
  rcases Nat.eq_or_lt_of_le (exponentFor_mono h) with heq | hlt
  · rw [nearest, nearest, heq]
    exact Nat.mul_le_mul_right _ (roundDiv_mono h)
  · calc nearest n ≤ 2 ^ 53 * 2 ^ exponentFor n := nearest_le n
      _ = 2 ^ 52 * 2 ^ (exponentFor n + 1) := by
        rw [← Nat.pow_add, ← Nat.pow_add]
        congr 1
        omega
      _ ≤ 2 ^ 52 * 2 ^ exponentFor m :=
        Nat.mul_le_mul_left _ (Nat.pow_le_pow_right (by decide) hlt)
      _ ≤ nearest m := le_nearest (Nat.ne_of_gt (Nat.zero_lt_of_lt hlt))

/-- A multiple of the unit at its exponent is not changed. -/
theorem nearest_eq_self (h : 2 ^ exponentFor n ∣ n) : nearest n = n := by
  obtain ⟨q, hq⟩ := h
  have hdiv := roundDiv_mul (Nat.two_pow_pos (exponentFor n)) q
  rw [Nat.mul_comm, ← hq] at hdiv
  rw [nearest, hdiv, Nat.mul_comm]
  exact hq.symm

theorem roundUnits_nearest (n : Nat) :
    (roundUnits n 1).1 <<< (roundUnits n 1).2 = nearest n ∧
      (roundUnits n 1).2 ≤ exponentFor n + 1 := by
  simp only [roundUnits, Nat.div_one, nearest, Nat.shiftLeft_eq, Nat.one_mul]
  split
  · rename_i hfull
    rw [hfull]
    have hpow : 2 ^ (exponentFor n + 1) = 2 ^ exponentFor n * 2 := Nat.pow_succ 2 _
    refine ⟨?_, Nat.le_refl _⟩
    simp only [hpow]
    omega
  · exact ⟨rfl, Nat.le_succ _⟩

theorem round?_nearest (h : exponentFor n ≤ 2044) :
    ∃ x, round? n 1 = some x ∧ x.negative = false ∧ x.magnitude = nearest n := by
  obtain ⟨hmagnitude, hexponent⟩ := roundUnits_nearest n
  have hround : (roundUnits n 1).2 ≤ 2045 := by omega
  rw [round?, dif_pos hround]
  exact ⟨_, rfl, rfl, hmagnitude⟩

/-! ## Whole numbers

A whole number is counted in units before it is rounded: it is shifted by the places of a unit. -/

theorem shiftLeft_le_shiftLeft (h : n ≤ m) (k : Nat) : n <<< k ≤ m <<< k := by
  rw [Nat.shiftLeft_eq, Nat.shiftLeft_eq]
  exact Nat.mul_le_mul_right _ h

theorem shiftLeft_injective {k : Nat} (h : n <<< k = m <<< k) : n = m := by
  rw [Nat.shiftLeft_eq, Nat.shiftLeft_eq] at h
  exact Nat.eq_of_mul_eq_mul_right (Nat.two_pow_pos k) h

theorem exponentFor_shiftLeft_le (h : n ≤ 2 ^ 64) (k : Nat) : exponentFor (n <<< k) ≤ 12 + k := by
  have hmono := exponentFor_mono (shiftLeft_le_shiftLeft h k)
  rw [Nat.shiftLeft_eq (2 ^ 64), ← Nat.pow_add, exponentFor.eq_def (2 ^ _),
    Nat.log2_two_pow] at hmono
  omega

/-- A whole number of up to 53 bits, or the next one, is a double. -/
theorem nearest_shiftLeft_of_le (h : n ≤ 2 ^ 53) (k : Nat) : nearest (n <<< k) = n <<< k := by
  refine nearest_eq_self ?_
  rw [Nat.shiftLeft_eq]
  rcases Nat.eq_or_lt_of_le h with rfl | hlt
  · rw [← Nat.pow_add, exponentFor, Nat.log2_two_pow]
    exact Nat.pow_dvd_pow 2 (Nat.sub_le _ _)
  · by_cases hn : n = 0
    · rw [hn, Nat.zero_mul]
      exact Nat.dvd_zero _
    · have hbits : n * 2 ^ k < 2 ^ (53 + k) := by
        rw [Nat.pow_add]
        exact Nat.mul_lt_mul_of_pos_right hlt (Nat.two_pow_pos _)
      have hlog : (n * 2 ^ k).log2 < 53 + k :=
        (Nat.log2_lt (Nat.mul_ne_zero hn (Nat.ne_of_gt (Nat.two_pow_pos _)))).2 hbits
      have hexponent : exponentFor (n * 2 ^ k) ≤ k := by
        rw [exponentFor]
        omega
      exact Nat.dvd_mul_left_of_dvd (Nat.pow_dvd_pow 2 hexponent) n

theorem ofNat?_nearest (h : n ≤ Limits.unsigned64) :
    ∃ x, ofNat? n = some x ∧ x.negative = false ∧ x.magnitude = nearest (n <<< 1074) :=
  round?_nearest (Nat.le_trans (exponentFor_shiftLeft_le (Nat.le_trans h (by decide)) 1074)
    (by decide))

/-! ## Integers -/

variable {i j : Int}

/-- An integer of 64 bits, with or without a sign. -/
def IsWord (i : Int) : Prop := -(Limits.signed64 + 1 : Int) ≤ i ∧ i ≤ Limits.unsigned64

instance : Decidable (IsWord i) := inferInstanceAs (Decidable (_ ∧ _))

theorem IsWord.natAbs_le (h : IsWord i) : i.natAbs ≤ Limits.unsigned64 := by
  obtain ⟨hlow, hhigh⟩ := h
  simp only [Limits.signed64, Limits.unsigned64] at *
  omega

theorem scaled_ofInt (h : IsWord i) : (ofInt i).scaled =
    if i < 0 then -(nearest (i.natAbs <<< 1074) : Int) else nearest (i.natAbs <<< 1074) := by
  obtain ⟨x, hx, hsign, hmagnitude⟩ := ofNat?_nearest h.natAbs_le
  rw [ofInt, hx, Option.getD_some, ← hmagnitude]
  split
  · rw [scaled, neg, if_pos (by rw [hsign]; rfl)]
    rfl
  · rw [scaled, if_neg (by rw [hsign]; decide)]

/-- Rounding never turns the order of two integers round. -/
theorem scaled_ofInt_mono (hi : IsWord i) (hj : IsWord j) (h : i ≤ j) :
    (ofInt i).scaled ≤ (ofInt j).scaled := by
  have hnearest {n m : Nat} (hle : n ≤ m) : nearest (n <<< 1074) ≤ nearest (m <<< 1074) :=
    nearest_mono (shiftLeft_le_shiftLeft hle 1074)
  rw [scaled_ofInt hi, scaled_ofInt hj]
  by_cases hneg : i < 0
  · rw [if_pos hneg]
    split
    · have hle := hnearest (n := j.natAbs) (m := i.natAbs) (by omega)
      omega
    · omega
  · rw [if_neg hneg, if_neg (by omega)]
    have hle := hnearest (n := i.natAbs) (m := j.natAbs) (by omega)
    omega

theorem isWord_of_le (h : i.natAbs ≤ 2 ^ 53) : IsWord i := by
  simp only [IsWord, Limits.signed64, Limits.unsigned64]
  omega

/-- Up to `2 ^ 53` no two integers have the same nearest double. -/
theorem eq_of_sameValue_ofInt (hi : i.natAbs ≤ 2 ^ 53) (hj : j.natAbs ≤ 2 ^ 53)
    (h : (ofInt i).sameValue (ofInt j) = true) : i = j := by
  have hscaled : (ofInt i).scaled = (ofInt j).scaled := beq_iff_eq.1 h
  rw [scaled_ofInt (isWord_of_le hi), scaled_ofInt (isWord_of_le hj),
    nearest_shiftLeft_of_le hi, nearest_shiftLeft_of_le hj] at hscaled
  have hzero {n : Nat} (hn : n <<< 1074 = 0) : n = 0 :=
    shiftLeft_injective (hn.trans (Nat.zero_shiftLeft 1074).symm)
  have hsame : i.natAbs <<< 1074 = j.natAbs <<< 1074 := by
    split at hscaled <;> split at hscaled <;> omega
  have habs := shiftLeft_injective hsame
  split at hscaled <;> split at hscaled
  · omega
  · have hi := hzero (n := i.natAbs) (by omega)
    omega
  · have hj := hzero (n := j.natAbs) (by omega)
    omega
  · omega

end Binary64
end ResourceQuery
