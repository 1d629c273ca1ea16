import ResourceQuery.Proofs.Number.Rounding
import ResourceQuery.Proofs.Page.StableSort

/-!
# Sorting by integers

Numbers are compared as doubles, and integers as the doubles nearest to them.  This keeps the order
of integers of 64 bits but does not tell all of them apart, and rows that are not told apart keep
their places.  So the integers come out in order exactly when those with the same nearest double
were in order before.  That is always so where no integer is further from zero than `2 ^ 53`.
-/

namespace ResourceQuery

/-- Whether an integer may stand in front of another in a sorted list. -/
def SortOrder.Admits : SortOrder → Int → Int → Prop
  | .ascending, a, b => a ≤ b
  | .descending, a, b => b ≤ a

instance (order : SortOrder) (a b : Int) : Decidable (order.Admits a b) := by
  cases order with
  | ascending => exact inferInstanceAs (Decidable (a ≤ b))
  | descending => exact inferInstanceAs (Decidable (b ≤ a))

open Binary64

/-- Rows with an integer of 64 bits at a property. -/
structure HoldIntegers (id : PropertyId) (value : Resource → Int) (rows : List Resource) :
    Prop where
  value_eq : ∀ r ∈ rows, r.value? id = some (.number (.int (value r)))
  isWord : ∀ r ∈ rows, IsWord (value r)

variable {id : PropertyId} {value : Resource → Int} {rows : List Resource} {r s : Resource}

theorem HoldIntegers.compareRows_eq (h : HoldIntegers id value rows) (hr : r ∈ rows) (hs : s ∈ rows)
    (order : SortOrder) : compareRows [⟨id, order⟩] r s = match order with
      | .ascending => (ofInt (value r)).order (ofInt (value s))
      | .descending => ((ofInt (value r)).order (ofInt (value s))).swap := by
  simp only [compareRows, List.foldr_cons, List.foldr_nil, Ordering.then_eq, SortKey.compareRows,
    h.value_eq r hr, h.value_eq s hs]
  rfl

theorem HoldIntegers.compareRows_eq_eq_iff (h : HoldIntegers id value rows) (hr : r ∈ rows)
    (hs : s ∈ rows) (order : SortOrder) : compareRows [⟨id, order⟩] r s = .eq ↔
      (ofInt (value r)).sameValue (ofInt (value s)) = true := by
  have heq : (ofInt (value r)).order (ofInt (value s)) = .eq ↔
      (ofInt (value r)).sameValue (ofInt (value s)) = true := by
    rw [Binary64.order, Std.LawfulEqOrd.compare_eq_iff_eq, sameValue, beq_iff_eq]
  rw [h.compareRows_eq hr hs]
  cases order with
  | ascending => exact heq
  | descending => exact Ordering.swap_eq_eq.trans heq

theorem HoldIntegers.admits_of_lt (h : HoldIntegers id value rows) (hr : r ∈ rows) (hs : s ∈ rows)
    {order : SortOrder} (hlt : compareRows [⟨id, order⟩] r s = .lt) :
    order.Admits (value r) (value s) := by
  have hle {r s : Resource} (hr : r ∈ rows) (hs : s ∈ rows)
      (hlt : (ofInt (value r)).order (ofInt (value s)) = .lt) : value r ≤ value s := by
    refine Int.not_lt.1 fun hgt => ?_
    have hmono := scaled_ofInt_mono (h.isWord s hs) (h.isWord r hr) (Int.le_of_lt hgt)
    have hscaled : (ofInt (value r)).scaled < (ofInt (value s)).scaled := Std.compare_eq_lt.1 hlt
    omega
  rw [h.compareRows_eq hr hs] at hlt
  cases order with
  | ascending => exact hle hr hs hlt
  | descending =>
    refine hle hs hr ?_
    have hswap : (ofInt (value s)).order (ofInt (value r)) =
        ((ofInt (value r)).order (ofInt (value s))).swap := Std.OrientedOrd.eq_swap
    rw [hswap]
    exact hlt

/-- The order of the integers in the sorted list is decided by those whose nearest double is the
same: between these nothing is changed. -/
theorem HoldIntegers.pairwise_sortRows_iff (h : HoldIntegers id value rows) (order : SortOrder) :
    ((sortRows [⟨id, order⟩] rows).map value).Pairwise order.Admits ↔
      (rows.map value).Pairwise fun a b =>
        (ofInt a).sameValue (ofInt b) = true → order.Admits a b := by
  rw [List.pairwise_map, List.pairwise_map, (stablySorts_sortRows [⟨id, order⟩] rows).pairwise_iff
    fun r hr s hs => h.admits_of_lt hr hs]
  refine List.Pairwise.iff_of_mem fun {r s} hr hs => ?_
  rw [h.compareRows_eq_eq_iff hr hs]

/-- Integers at a property come out in order, in either direction, exactly when those with the same
nearest double are in order before; and always where they are no further from zero than
`2 ^ 53`. -/
theorem sortRows_integers_iff (h : HoldIntegers id value rows) :
    (∀ order : SortOrder, ((sortRows [⟨id, order⟩] rows).map value).Pairwise order.Admits ↔
      (rows.map value).Pairwise fun a b =>
        (ofInt a).sameValue (ofInt b) = true → order.Admits a b) ∧
    ((∀ r ∈ rows, (value r).natAbs ≤ 2 ^ 53) → ∀ order : SortOrder,
      ((sortRows [⟨id, order⟩] rows).map value).Pairwise order.Admits) := by
  refine ⟨h.pairwise_sortRows_iff, fun hsmall order => ?_⟩
  rw [h.pairwise_sortRows_iff order, List.pairwise_map]
  refine List.pairwise_of_forall_mem_list fun r hr s hs hsame => ?_
  rw [eq_of_sameValue_ofInt (hsmall r hr) (hsmall s hs) hsame]
  cases order with
  | ascending => exact Int.le_refl _
  | descending => exact Int.le_refl _

/-- A host with its load. -/
def loadRow (load : Int) : Resource :=
  ⟨⟨"Host"⟩, SortedMap.insert ∅ ⟨"load"⟩ (.number (.int load))⟩

theorem value?_loadRow (load : Int) :
    (loadRow load).value? ⟨"load"⟩ = some (.number (.int load)) := by
  rw [loadRow, Resource.value?, SortedMap.get?_insert, if_pos rfl]

/-- The load of a host. -/
def loadOf (r : Resource) : Int :=
  match r.value? ⟨"load"⟩ with
  | some (.number (.int load)) => load
  | _ => 0

theorem loadOf_loadRow (load : Int) : loadOf (loadRow load) = load := by
  rw [loadOf, value?_loadRow]

theorem holdIntegers_loads (loads : List Int) (h : ∀ load ∈ loads, IsWord load) :
    HoldIntegers ⟨"load"⟩ loadOf (loads.map loadRow) := by
  constructor <;> intro r hr <;> obtain ⟨load, hload, rfl⟩ := List.mem_map.1 hr
  · rw [value?_loadRow, loadOf_loadRow]
  · rw [loadOf_loadRow]
    exact h load hload

theorem map_loadOf_loads (loads : List Int) : (loads.map loadRow).map loadOf = loads := by
  have hid : loadOf ∘ loadRow = id := funext loadOf_loadRow
  rw [List.map_map, hid, List.map_id]

/-- Three loads, of which two have one nearest double, and three that are all told apart. -/
theorem loads_sorted :
    HoldIntegers ⟨"load"⟩ loadOf ([9007199254740992, 9007199254740993, -7].map loadRow) ∧
      (ofInt 9007199254740992).sameValue (ofInt 9007199254740993) = true ∧
      ((sortRows [⟨⟨"load"⟩, .ascending⟩]
        ([9007199254740992, 9007199254740993, -7].map loadRow)).map loadOf).Pairwise (· ≤ ·) ∧
      HoldIntegers ⟨"load"⟩ loadOf ([3, -7, 9007199254740992].map loadRow) ∧
      ((sortRows [⟨⟨"load"⟩, .descending⟩]
        ([3, -7, 9007199254740992].map loadRow)).map loadOf).Pairwise (· ≥ ·) := by
  have hloads := holdIntegers_loads [9007199254740992, 9007199254740993, -7] (by decide)
  have hapart := holdIntegers_loads [3, -7, 9007199254740992] (by decide)
  refine ⟨hloads, by decide +kernel, ((sortRows_integers_iff hloads).1 .ascending).2 ?_, hapart,
    (sortRows_integers_iff hapart).2 ?_ .descending⟩
  · rw [map_loadOf_loads]
    decide +kernel
  · intro r hr
    have hsmall : ∀ load ∈ [3, -7, 9007199254740992], load.natAbs ≤ 2 ^ 53 := by decide
    obtain ⟨load, hload, rfl⟩ := List.mem_map.1 hr
    rw [loadOf_loadRow]
    exact hsmall load hload

/-- With the greater of the two in front they stay out of order. -/
theorem loads_not_sorted :
    HoldIntegers ⟨"load"⟩ loadOf ([9007199254740993, 9007199254740992].map loadRow) ∧
      ¬ ((sortRows [⟨⟨"load"⟩, .ascending⟩]
        ([9007199254740993, 9007199254740992].map loadRow)).map loadOf).Pairwise (· ≤ ·) := by
  have hloads := holdIntegers_loads [9007199254740993, 9007199254740992] (by decide)
  refine ⟨hloads, fun hsorted => ?_⟩
  have hbefore := (hloads.pairwise_sortRows_iff .ascending).1 hsorted
  rw [map_loadOf_loads] at hbefore
  exact absurd hbefore (by decide +kernel)

end ResourceQuery
