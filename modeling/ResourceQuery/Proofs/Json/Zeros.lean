import Mathlib.Data.List.Forall2
import ResourceQuery.Proofs.Json.Agreement

/-!
# The two zeros

Values that agree differ at most in the signs of their zeros.  The text of a value shows these
signs: of two agreeing values, neither the texts nor the lists of signs are the same unless the
values are, whatever is written behind them.  So agreeing values have the same text exactly when
their zeros have the same signs.
-/

namespace ResourceQuery

/-! ## What tells values apart -/

/-- What is written for two elements tells them apart, whatever is written behind it. -/
def TellsApart {α β : Type} (f : α → List β) (x y : α) : Prop :=
  ∀ a b : List β, f x ++ a = f y ++ b → x = y

namespace TellsApart

variable {α β : Type} {f : α → List β} {x y : α} {xs ys : List α}

theorem refl (f : α → List β) (x : α) : TellsApart f x x := fun _ _ _ => rfl

theorem eq_iff (h : TellsApart f x y) : f x = f y ↔ x = y := by
  constructor
  · intro hsame
    exact h [] [] (by rw [hsame])
  · rintro rfl
    rfl

/-- Elements that are told apart one by one are told apart when they are written in a row. -/
theorem flatMap (h : List.Forall₂ (TellsApart f) xs ys) :
    TellsApart (fun zs => zs.flatMap f) xs ys := by
  induction h with
  | nil => exact refl _ []
  | @cons x y xs ys hxy _ ih =>
    intro a b hab
    simp only [List.flatMap_cons, List.append_assoc] at hab
    obtain rfl := hxy _ _ hab
    rw [ih a b (List.append_cancel_left hab)]

/-- The same with a separator between them. -/
theorem intercalate (sep : β) (h : List.Forall₂ (TellsApart f) xs ys) :
    TellsApart (fun zs => [sep].intercalate (zs.map f)) xs ys := by
  induction h with
  | nil => exact refl _ []
  | @cons x y xs ys hxy hrest ih =>
    intro a b hab
    cases hrest with
    | nil =>
      simp only [List.map_cons, List.map_nil, List.intercalate_singleton] at hab
      rw [hxy a b hab]
    | cons _ _ =>
      simp only [List.map_cons, List.intercalate_cons_cons, List.append_assoc] at hab ih
      obtain rfl := hxy _ _ hab
      have hbehind := List.append_cancel_left (List.append_cancel_left hab)
      rw [ih a b hbehind]

end TellsApart

/-! ## Doubles -/

namespace Binary64

variable {x y : Binary64}

/-- Whether a zero is the negative one; other numbers give nothing. -/
def zeroSign (x : Binary64) : List Bool := if x.isZero then [x.negative] else []

theorem magnitude_eq_zero_iff : x.magnitude = 0 ↔ x.isZero = true := by
  rw [magnitude, Nat.shiftLeft_eq, Nat.mul_eq_zero, isZero, beq_iff_eq]
  exact or_iff_left (Nat.ne_of_gt (Nat.two_pow_pos _))

theorem exponent_le_of_magnitude_eq (h : x.magnitude = y.magnitude) :
    y.exponent ≤ x.exponent := by
  by_contra hlt
  have hnormal : 1 <<< 52 ≤ y.significand := y.normal.resolve_left (by omega)
  have hbound := x.significand_lt
  -- The greater exponent leaves a factor of two or more for the other significand.
  obtain ⟨k, hk⟩ : ∃ k, y.exponent = x.exponent + 1 + k := ⟨y.exponent - x.exponent - 1, by omega⟩
  have hsplit : y.magnitude = y.significand * 2 * 2 ^ k * 2 ^ x.exponent := by
    rw [magnitude, Nat.shiftLeft_eq, hk, Nat.pow_add, Nat.pow_add, Nat.pow_one]
    ac_rfl
  have hsignificand : x.significand = y.significand * 2 * 2 ^ k := by
    rw [hsplit, magnitude, Nat.shiftLeft_eq] at h
    exact Nat.eq_of_mul_eq_mul_right (Nat.two_pow_pos _) h
  have hfactor : y.significand * 2 ≤ y.significand * 2 * 2 ^ k :=
    Nat.le_mul_of_pos_right _ (Nat.two_pow_pos k)
  have hpowers : (1 <<< 53 : Nat) = 1 <<< 52 * 2 := by decide
  omega

/-- A double is determined by its sign and its magnitude. -/
theorem eq_of_magnitude_eq (h : x.magnitude = y.magnitude) (hsign : x.negative = y.negative) :
    x = y := by
  have hexponent : x.exponent = y.exponent :=
    Nat.le_antisymm (exponent_le_of_magnitude_eq h.symm) (exponent_le_of_magnitude_eq h)
  have hsignificand : x.significand = y.significand := by
    rw [magnitude, magnitude, hexponent, Nat.shiftLeft_eq, Nat.shiftLeft_eq] at h
    exact Nat.eq_of_mul_eq_mul_right (Nat.two_pow_pos _) h
  cases x
  cases y
  simp_all

/-- Numerically equal doubles are the same, or both are zeros. -/
theorem eq_or_isZero_of_sameValue (h : x.sameValue y = true) :
    x = y ∨ x.isZero = true ∧ y.isZero = true := by
  have hscaled : x.scaled = y.scaled := eq_of_beq h
  have hmagnitude : x.magnitude = y.magnitude := by
    unfold scaled at hscaled
    split at hscaled <;> split at hscaled <;> omega
  by_cases hzero : x.magnitude = 0
  · exact .inr ⟨magnitude_eq_zero_iff.1 hzero, magnitude_eq_zero_iff.1 (hmagnitude ▸ hzero)⟩
  · refine .inl (eq_of_magnitude_eq hmagnitude ?_)
    unfold scaled at hscaled
    cases hx : x.negative <;> cases hy : y.negative <;> simp [hx, hy] at hscaled ⊢ <;> omega

/-- Two zeros are told apart by whatever shows their signs. -/
theorem tellsApart_of_sameValue {β : Type} {f : Binary64 → List β} (h : x.sameValue y = true)
    (hzeros : x.isZero = true → y.isZero = true → ∀ a b, f x ++ a = f y ++ b →
      x.negative = y.negative) : TellsApart f x y := by
  intro a b hab
  rcases eq_or_isZero_of_sameValue h with rfl | ⟨hx, hy⟩
  · rfl
  · have hmagnitude : x.magnitude = y.magnitude :=
      (magnitude_eq_zero_iff.2 hx).trans (magnitude_eq_zero_iff.2 hy).symm
    exact eq_of_magnitude_eq hmagnitude (hzeros hx hy a b hab)

theorem text_tellsApart (h : x.sameValue y = true) :
    TellsApart (fun z : Binary64 => z.text.toList) x y := by
  refine tellsApart_of_sameValue h fun hx hy a b hab => ?_
  cases hnx : x.negative <;> cases hny : y.negative <;> simp_all [text]

theorem zeroSign_tellsApart (h : x.sameValue y = true) : TellsApart zeroSign x y := by
  refine tellsApart_of_sameValue h fun hx hy a b hab => ?_
  simp only [zeroSign, hx, hy, if_true, List.singleton_append, List.cons.injEq] at hab
  exact hab.1

end Binary64

/-! ## Values -/

namespace Json

mutual

/-- The signs of the zeros in a value, in the order of its text. -/
def zeroSigns : Json → List Bool
  | .number (.float x) => x.zeroSign
  | .array items => zeroSignsIn items
  | .object fields => zeroSignsOf fields
  | _ => []

/-- The signs of the zeros in the items of an array. -/
def zeroSignsIn : List Json → List Bool
  | [] => []
  | x :: xs => x.zeroSigns ++ zeroSignsIn xs

/-- The signs of the zeros in the fields of an object. -/
def zeroSignsOf : List (String × Json) → List Bool
  | [] => []
  | (_, x) :: xs => x.zeroSigns ++ zeroSignsOf xs

end

theorem zeroSignsIn_eq (xs : List Json) : zeroSignsIn xs = xs.flatMap zeroSigns := by
  induction xs with
  | nil => rfl
  | cons x xs ih => simp [zeroSignsIn, ih]

theorem zeroSignsOf_eq (xs : List (String × Json)) :
    zeroSignsOf xs = xs.flatMap fun (_, x) => x.zeroSigns := by
  induction xs with
  | nil => rfl
  | cons x xs ih => simp [zeroSignsOf, ih]

theorem itemTexts_eq (xs : List Json) : itemTexts xs = xs.map text := by
  induction xs with
  | nil => rfl
  | cons x xs ih => simp [itemTexts, ih]

theorem fieldTexts_eq (xs : List (String × Json)) :
    fieldTexts xs = xs.map fun (k, x) => quoted k ++ ":" ++ x.text := by
  induction xs with
  | nil => rfl
  | cons x xs ih => simp [fieldTexts, ih]

/-- A relation that passes from the parts of agreeing values to the values. -/
structure Passes (R : Json → Json → Prop) : Prop where
  refl : ∀ x, R x x
  number : ∀ m n : Number, m.agrees n = true → R (.number m) (.number n)
  array : ∀ xs ys, List.Forall₂ R xs ys → R (.array xs) (.array ys)
  object : ∀ xs ys, List.Forall₂ (fun p q => p.1 = q.1 ∧ R p.2 q.2) xs ys →
    R (.object xs) (.object ys)

namespace Passes

variable {R : Json → Json → Prop}

mutual

/-- Such a relation holds between agreeing values. -/
theorem of_agrees (hR : Passes R) : ∀ {x y : Json}, x.agrees y = true → R x y
  | .null, y, h => by
    cases y with
    | null => exact hR.refl _
    | _ => simp [agrees] at h
  | .bool a, y, h => by
    cases y with
    | bool b =>
      obtain rfl : a = b := by simpa [agrees] using h
      exact hR.refl _
    | _ => simp [agrees] at h
  | .string s, y, h => by
    cases y with
    | string t =>
      obtain rfl : s = t := by simpa [agrees] using h
      exact hR.refl _
    | _ => simp [agrees] at h
  | .number m, y, h => by
    cases y with
    | number n => exact hR.number m n (by simpa [agrees] using h)
    | _ => simp [agrees] at h
  | .array xs, y, h => by
    cases y with
    | array ys => exact hR.array xs ys (hR.of_agreesItems (by simpa [agrees] using h))
    | _ => simp [agrees] at h
  | .object xs, y, h => by
    cases y with
    | object ys => exact hR.object xs ys (hR.of_agreesFields (by simpa [agrees] using h))
    | _ => simp [agrees] at h

theorem of_agreesItems (hR : Passes R) : ∀ {xs ys : List Json}, agreesItems xs ys = true →
    List.Forall₂ R xs ys
  | [], ys, h => by
    cases ys with
    | nil => exact .nil
    | cons y ys => simp [agreesItems] at h
  | x :: xs, ys, h => by
    cases ys with
    | nil => simp [agreesItems] at h
    | cons y ys =>
      obtain ⟨hx, hxs⟩ : x.agrees y = true ∧ agreesItems xs ys = true := by
        simpa [agreesItems] using h
      exact .cons (hR.of_agrees hx) (hR.of_agreesItems hxs)

theorem of_agreesFields (hR : Passes R) : ∀ {xs ys : List (String × Json)},
    agreesFields xs ys = true → List.Forall₂ (fun p q => p.1 = q.1 ∧ R p.2 q.2) xs ys
  | [], ys, h => by
    cases ys with
    | nil => exact .nil
    | cons y ys => simp [agreesFields] at h
  | (k, x) :: xs, ys, h => by
    cases ys with
    | nil => simp [agreesFields] at h
    | cons y ys =>
      obtain ⟨l, y⟩ := y
      obtain ⟨⟨hk, hx⟩, hxs⟩ : (k = l ∧ x.agrees y = true) ∧ agreesFields xs ys = true := by
        simpa [agreesFields] using h
      exact .cons ⟨hk, hR.of_agrees hx⟩ (hR.of_agreesFields hxs)

end

end Passes

/-- Named values are told apart by what tells the values apart, if they have the same names. -/
theorem tellsApart_fields {κ β : Type} {f : Json → List β} (label : κ → List β)
    {xs ys : List (κ × Json)}
    (h : List.Forall₂ (fun p q => p.1 = q.1 ∧ TellsApart f p.2 q.2) xs ys) :
    List.Forall₂ (TellsApart fun p : κ × Json => label p.1 ++ f p.2) xs ys := by
  refine h.imp fun p q hpq a b hab => ?_
  obtain ⟨hname, hvalue⟩ := hpq
  simp only [hname, List.append_assoc] at hab
  exact Prod.ext hname (hvalue a b (List.append_cancel_left hab))

/-- What tells agreeing doubles apart and shows the parts of containers one by one tells agreeing
values apart. -/
theorem passes_tellsApart {β : Type} {f : Json → List β}
    (hfloat : ∀ x y : Binary64, x.sameValue y = true →
      TellsApart (fun z => f (.number (.float z))) x y)
    (harray : ∀ xs ys, List.Forall₂ (TellsApart f) xs ys →
      TellsApart (fun zs => f (.array zs)) xs ys)
    (hobject : ∀ xs ys, List.Forall₂ (fun p q => p.1 = q.1 ∧ TellsApart f p.2 q.2) xs ys →
      TellsApart (fun zs => f (.object zs)) xs ys) : Passes (TellsApart f) where
  refl := .refl f
  number m n hmn a b hab := by
    cases m with
    | int i =>
      cases n with
      | int j => rw [show i = j by simpa [Number.agrees] using hmn]
      | float y => cases hmn
    | float x =>
      cases n with
      | int j => cases hmn
      | float y => rw [hfloat x y hmn a b hab]
  array xs ys h a b hab := congrArg array (harray xs ys h a b hab)
  object xs ys h a b hab := congrArg object (hobject xs ys h a b hab)

/-- The texts of agreeing values tell them apart. -/
theorem text_tellsApart {x y : Json} (h : x.agrees y = true) :
    TellsApart (fun z : Json => z.text.toList) x y := by
  refine (passes_tellsApart (fun x y hxy => Binary64.text_tellsApart hxy)
    (fun xs ys hxs a b hab => ?_) (fun xs ys hxs a b hab => ?_)).of_agrees h
  · have hitems (zs : List Json) : (Json.array zs).text.toList =
        '[' :: ([','].intercalate (zs.map fun z => z.text.toList) ++ [']']) := by
      simp [text, itemTexts_eq, Function.comp_def]
    simp only [hitems, List.cons_append, List.append_assoc, List.cons.injEq, true_and] at hab
    exact TellsApart.intercalate ',' hxs _ _ hab
  · have hfields (zs : List (String × Json)) : (Json.object zs).text.toList =
        '\x7b' :: ([','].intercalate (zs.map fun p =>
          (quoted p.1 ++ ":").toList ++ p.2.text.toList) ++ ['\x7d']) := by
      simp [text, fieldTexts_eq, Function.comp_def]
    simp only [hfields, List.cons_append, List.append_assoc, List.cons.injEq, true_and] at hab
    have hapart := tellsApart_fields (fun k => (quoted k ++ ":").toList) hxs
    exact TellsApart.intercalate ',' hapart _ _ hab

/-- The signs of the zeros in agreeing values tell them apart. -/
theorem zeroSigns_tellsApart {x y : Json} (h : x.agrees y = true) : TellsApart zeroSigns x y := by
  refine (passes_tellsApart (fun x y hxy => Binary64.zeroSign_tellsApart hxy)
    (fun xs ys hxs a b hab => ?_) (fun xs ys hxs a b hab => ?_)).of_agrees h
  · simp only [zeroSigns, zeroSignsIn_eq] at hab
    exact TellsApart.flatMap hxs a b hab
  · simp only [zeroSigns, zeroSignsOf_eq] at hab
    have hapart := tellsApart_fields (fun _ => []) hxs
    exact TellsApart.flatMap hapart a b hab

end Json
end ResourceQuery
