import ResourceQuery.Page.Sort

/-!
# The order of rows

Values of all kinds stand in one order: by kind first, and then by what the kind says, a truth
value, a quantity or a wording.  What a value does not say counts as the same for all values, so
arrays are not told apart, nor are objects.  The comparison of values is therefore a comparison of
four parts in turn, each of which has a linear order.  From there it passes to values that may be
missing, to rows by one key in either direction, and to rows by several keys.
-/

namespace ResourceQuery

namespace Json

/-- The truth value that a value says. -/
def truth : Json → Bool
  | .bool value => value
  | _ => false

/-- The quantity that a value says, in units of the least positive double. -/
def quantity : Json → Int
  | .number value => value.toBinary64.scaled
  | _ => 0

/-- The wording that a value says. -/
def wording : Json → String
  | .string value => value
  | _ => ""

variable {a b : Json}

theorem order_of_kindRank_ne (h : a.kindRank ≠ b.kindRank) :
    a.order b = compare a.kindRank b.kindRank := by
  unfold order
  split
  · exact absurd rfl h
  · exact absurd rfl h
  · exact absurd rfl h
  · rfl

/-- Within a kind two parts are the same, and the third is what is compared. -/
theorem order_of_kindRank_eq (h : a.kindRank = b.kindRank) :
    a.order b = (compare a.truth b.truth).then
      ((compare a.quantity b.quantity).then (compare a.wording b.wording)) := by
  cases a <;> cases b <;> cases h <;>
    simp [order, kindRank, truth, quantity, wording, Binary64.order]

theorem order_eq_compareLex : order = compareLex (compareOn kindRank) (compareLex (compareOn truth)
    (compareLex (compareOn quantity) (compareOn wording))) := by
  funext a b
  by_cases hkind : a.kindRank = b.kindRank
  · have hrank : compare a.kindRank b.kindRank = .eq := Nat.compare_eq_eq.2 hkind
    rw [order_of_kindRank_eq hkind, compareLex, compareOn, hrank]
    rfl
  · have hrank : compare a.kindRank b.kindRank ≠ .eq := mt Nat.compare_eq_eq.1 hkind
    rw [order_of_kindRank_ne hkind, compareLex, compareOn]
    cases hrank' : compare a.kindRank b.kindRank with
    | lt => rfl
    | eq => exact absurd hrank' hrank
    | gt => rfl

instance : Std.TransCmp order := by
  rw [order_eq_compareLex]
  infer_instance

end Json

namespace SortKey

instance : Std.TransCmp orderOptional where
  eq_swap {a b} := by
    cases a with
    | none => cases b <;> rfl
    | some a =>
      cases b with
      | none => rfl
      | some b => exact @Std.OrientedCmp.eq_swap _ Json.order _ a b
  isLE_trans {a b c} hab hbc := by
    cases a with
    | none => cases c <;> rfl
    | some a =>
      cases b with
      | none => cases hab
      | some b =>
        cases c with
        | none => cases hbc
        | some c => exact @Std.TransCmp.isLE_trans _ Json.order _ a b c hab hbc

/-- By a descending key the rows change places. -/
theorem compareRows_descending (id : PropertyId) (r s : Resource) :
    compareRows ⟨id, .descending⟩ r s = compareRows ⟨id, .ascending⟩ s r :=
  (@Std.OrientedCmp.eq_swap _ orderOptional _ _ _).symm

theorem transCmp_ascending (id : PropertyId) : Std.TransCmp (compareRows ⟨id, .ascending⟩) where
  eq_swap {r s} := @Std.OrientedCmp.eq_swap _ orderOptional _ (r.value? id) (s.value? id)
  isLE_trans {r s t} :=
    @Std.TransCmp.isLE_trans _ orderOptional _ (r.value? id) (s.value? id) (t.value? id)

instance (key : SortKey) : Std.TransCmp key.compareRows := by
  obtain ⟨id, order⟩ := key
  have hascending := transCmp_ascending id
  cases order with
  | ascending => exact hascending
  | descending =>
    have hflip : compareRows ⟨id, .descending⟩ = fun r s => compareRows ⟨id, .ascending⟩ s r :=
      funext fun r => funext fun s => compareRows_descending id r s
    rw [hflip]
    infer_instance

end SortKey

theorem compareRows_cons (key : SortKey) (keys : List SortKey) :
    compareRows (key :: keys) = compareLex key.compareRows (compareRows keys) := rfl

instance (keys : List SortKey) : Std.TransCmp (compareRows keys) := by
  induction keys with
  | nil =>
    have hswap : ∀ r s, compareRows [] r s = (compareRows [] s r).swap := fun _ _ => rfl
    have : Std.OrientedCmp (compareRows []) := ⟨fun {r s} => hswap r s⟩
    exact ⟨fun _ _ => rfl⟩
  | cons key keys ih =>
    rw [compareRows_cons]
    infer_instance

end ResourceQuery
