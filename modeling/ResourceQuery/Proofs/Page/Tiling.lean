import Mathlib.Data.UInt
import ResourceQuery.Number.Limits
import ResourceQuery.Page.Basic

/-!
# Pages tile a result

A page is a run of the rows of a result, with at most as many rows as it was asked for.  Pages of
one size, taken behind every multiple of that size, stand one behind the other, whether they are
counted from the first row or from the last; put together they are the whole result.

Where a page lies is a matter of sums and differences of numbers that come from outside, and the
greatest numbers of 64 bits are among them.  Computed in words, with sums that stop at the greatest
word and differences that stop at zero, the bounds of a page are the same.
-/

namespace ResourceQuery

/-! ## Arithmetic in words -/

/-- The sum of two words, or the greatest word where that is too large. -/
def addCapped (a b : UInt64) : UInt64 := if a ≤ a + b then a + b else .ofNat Limits.unsigned64

/-- The difference of two words, or zero where that is negative. -/
def subCapped (a b : UInt64) : UInt64 := if b ≤ a then a - b else 0

theorem toNat_ofNat_word {n : Nat} (h : n ≤ Limits.unsigned64) : (UInt64.ofNat n).toNat = n :=
  Nat.mod_eq_of_lt (Nat.lt_succ_of_le h)

theorem toNat_addCapped (a b : UInt64) :
    (addCapped a b).toNat = min (a.toNat + b.toNat) Limits.unsigned64 := by
  have ha := a.toNat_lt
  have hb := b.toNat_lt
  have hsum := UInt64.toNat_add a b
  unfold addCapped
  split
  · rename_i hle
    rw [UInt64.le_iff_toNat_le] at hle
    simp only [Limits.unsigned64]
    omega
  · rename_i hle
    rw [UInt64.le_iff_toNat_le] at hle
    rw [toNat_ofNat_word (Nat.le_refl _)]
    simp only [Limits.unsigned64]
    omega

theorem toNat_subCapped (a b : UInt64) : (subCapped a b).toNat = a.toNat - b.toNat := by
  unfold subCapped
  split
  · rename_i hle
    exact UInt64.toNat_sub_of_le a b hle
  · rename_i hle
    rw [UInt64.le_iff_toNat_le] at hle
    exact (Nat.sub_eq_zero_of_le (Nat.le_of_not_le hle)).symm

/-! ## The bounds of a page -/

/-- How far from its end of the result a page starts. -/
def StartingPoint.distance : StartingPoint → Nat
  | .beginning | .ending => 0
  | .offsetStart offset | .offsetEnd offset => offset

namespace PageRequest

variable {α : Type} {p : PageRequest}

/-- The page can be asked for in words of 64 bits. -/
def FitsWords (p : PageRequest) : Prop :=
  p.size ≤ Limits.unsigned64 ∧ p.start.distance ≤ Limits.unsigned64

instance : Decidable p.FitsWords := inferInstanceAs (Decidable (_ ∧ _))

/-- The bounds of a page, computed in words. -/
def wordBounds (p : PageRequest) (total : UInt64) : UInt64 × UInt64 :=
  let size := UInt64.ofNat p.size
  match p.start with
  | .beginning => (0, min (addCapped 0 size) total)
  | .ending =>
    let first := subCapped total size
    (first, min (addCapped first size) total)
  | .offsetStart offset =>
    let first := min (.ofNat offset) total
    (first, min (addCapped first size) total)
  | .offsetEnd offset =>
    let last := subCapped total (.ofNat offset)
    (subCapped last size, last)

/-- No sum or difference in words goes wrong. -/
theorem toNat_wordBounds (h : p.FitsWords) (total : UInt64) :
    ((p.wordBounds total).1.toNat, (p.wordBounds total).2.toNat) = p.bounds total.toNat := by
  have htotal : total.toNat ≤ Limits.unsigned64 := Nat.le_of_lt_succ total.toNat_lt
  have hsize := toNat_ofNat_word h.1
  have hdistance := toNat_ofNat_word h.2
  unfold wordBounds bounds
  cases hstart : p.start with
  | beginning =>
    simp only [UInt64.toNat_min, toNat_addCapped, UInt64.toNat_zero, hsize, Prod.mk.injEq,
      true_and]
    omega
  | ending =>
    simp only [UInt64.toNat_min, toNat_addCapped, toNat_subCapped, hsize, Prod.mk.injEq,
      true_and]
    omega
  | offsetStart offset =>
    simp only [hstart, StartingPoint.distance] at hdistance
    simp only [UInt64.toNat_min, toNat_addCapped, hsize, hdistance, Prod.mk.injEq, true_and]
    omega
  | offsetEnd offset =>
    simp only [hstart, StartingPoint.distance] at hdistance
    simp only [toNat_subCapped, hsize, hdistance]

theorem bounds_le (p : PageRequest) (total : Nat) : (p.bounds total).1 ≤ (p.bounds total).2 ∧
    (p.bounds total).2 ≤ total ∧ (p.bounds total).2 - (p.bounds total).1 ≤ p.size := by
  unfold bounds
  split <;> simp only <;> omega

/-! ## Pages as runs -/

theorem select_rows (p : PageRequest) (rows : List α) : (p.select rows).rows =
    (rows.drop (p.bounds rows.length).1).take
      ((p.bounds rows.length).2 - (p.bounds rows.length).1) := rfl

theorem length_select_rows (p : PageRequest) (rows : List α) : (p.select rows).rows.length =
    (p.bounds rows.length).2 - (p.bounds rows.length).1 := by
  obtain ⟨hle, htotal, -⟩ := p.bounds_le rows.length
  rw [select_rows, List.length_take, List.length_drop]
  omega

end PageRequest

/-- A page holds consecutive rows of a result, behind as many rows as it says, and at most as many
as were asked for. -/
structure Page.IsRun {α : Type} (page : Page α) (rows : List α) (size : Nat) : Prop where
  total_eq : page.total = rows.length
  offset_le : page.offset ≤ rows.length
  rows_eq : page.rows = (rows.drop page.offset).take page.rows.length
  length_le : page.rows.length ≤ size

namespace PageRequest

variable {α : Type} {size : Nat} {sort : Option (List SortKey)} {rows : List α}

theorem isRun_select (p : PageRequest) (rows : List α) : (p.select rows).IsRun rows p.size := by
  obtain ⟨hle, htotal, hsize⟩ := p.bounds_le rows.length
  refine ⟨rfl, Nat.le_trans hle htotal, ?_, ?_⟩
  · rw [length_select_rows]
    rfl
  · rw [length_select_rows]
    exact hsize

theorem select_offsetStart (offset : Nat) : (select ⟨.offsetStart offset, size, sort⟩ rows).rows =
    (rows.drop offset).take size := by
  rw [select_rows]
  simp only [bounds]
  by_cases hoffset : offset ≤ rows.length
  · have hlength : min (offset + size) rows.length - offset =
        min size (rows.drop offset).length := by
      rw [List.length_drop]
      omega
    rw [Nat.min_eq_left hoffset, hlength, ← List.take_eq_take_min]
  · have hbehind : rows.length ≤ offset := Nat.le_of_not_le hoffset
    rw [Nat.min_eq_right hbehind, List.drop_length, List.drop_of_length_le hbehind,
      List.take_nil, List.take_nil]

/-- A page that is counted from the last row stands in front of the rows that it leaves out. -/
theorem select_offsetEnd_append (offset : Nat) :
    (select ⟨.offsetEnd offset, size, sort⟩ rows).rows ++ rows.drop (rows.length - offset) =
      rows.drop (rows.length - (offset + size)) := by
  have hrest : rows.drop (rows.length - offset) =
      (rows.drop (rows.length - offset - size)).drop
        (rows.length - offset - (rows.length - offset - size)) := by
    rw [List.drop_drop]
    congr 1
    omega
  rw [select_rows, hrest]
  simp only [bounds]
  rw [List.take_append_drop, Nat.sub_sub]

end PageRequest

/-! ## Offsets -/

/-- The multiples of a number that lie below another, in order. -/
def multiplesBelow (step total : Nat) : List Nat := (List.range total).filter (step ∣ ·)

theorem multiplesBelow_succ (step total : Nat) : multiplesBelow step (total + 1) =
    if step ∣ total then multiplesBelow step total ++ [total] else multiplesBelow step total := by
  unfold multiplesBelow
  rw [List.range_succ, List.filter_append]
  split
  · rename_i hdvd
    simp [hdvd]
  · rename_i hdvd
    simp [hdvd]

/-- What holds at first and is carried from each multiple to the next holds of all multiples below a
number, and has then been carried past that number. -/
theorem multiplesBelow_induction {step : Nat} (hstep : 0 < step) {P : List Nat → Nat → Prop}
    (hnil : P [] 0)
    (hnext : ∀ offsets reached, P offsets reached → P (offsets ++ [reached]) (reached + step))
    (total : Nat) : ∃ reached, total ≤ reached ∧ P (multiplesBelow step total) reached := by
  -- What is reached is the first multiple that does not lie below the number.
  suffices h : ∃ reached, step ∣ reached ∧ total ≤ reached ∧ reached < total + step ∧
      P (multiplesBelow step total) reached by
    obtain ⟨reached, -, hle, -, hP⟩ := h
    exact ⟨reached, hle, hP⟩
  induction total with
  | zero => exact ⟨0, Nat.dvd_zero step, Nat.le_refl 0, by omega, hnil⟩
  | succ total ih =>
    obtain ⟨reached, hdvd, hle, hlt, hP⟩ := ih
    rw [multiplesBelow_succ]
    split
    · rename_i hmultiple
      obtain rfl : reached = total := by
        have hdiff : reached - total = 0 :=
          Nat.eq_zero_of_dvd_of_lt (Nat.dvd_sub hdvd hmultiple) (by omega)
        omega
      exact ⟨reached + step, Nat.dvd_add hdvd (Nat.dvd_refl step), by omega, by omega,
        hnext _ reached hP⟩
    · rename_i hmultiple
      have hne : reached ≠ total := fun heq => hmultiple (heq ▸ hdvd)
      exact ⟨reached, hdvd, by omega, by omega, hP⟩

namespace PageRequest

variable {α : Type} {size : Nat} {sort : Option (List SortKey)}

theorem flatMap_select_offsetStart (hsize : 0 < size) (rows : List α) :
    ((multiplesBelow size rows.length).flatMap fun offset =>
      (select ⟨.offsetStart offset, size, sort⟩ rows).rows) = rows := by
  obtain ⟨reached, hreached, hrows⟩ := multiplesBelow_induction hsize
    (P := fun offsets reached =>
      (offsets.flatMap fun offset => (select ⟨.offsetStart offset, size, sort⟩ rows).rows) =
        rows.take reached)
    rfl
    (by
      intro offsets reached hrows
      rw [List.flatMap_append, hrows, List.flatMap_singleton, select_offsetStart, List.take_add])
    rows.length
  rw [hrows, List.take_of_length_le hreached]

theorem flatMap_select_offsetEnd (hsize : 0 < size) (rows : List α) :
    ((multiplesBelow size rows.length).reverse.flatMap fun offset =>
      (select ⟨.offsetEnd offset, size, sort⟩ rows).rows) = rows := by
  obtain ⟨reached, hreached, hrows⟩ := multiplesBelow_induction hsize
    (P := fun offsets reached =>
      (offsets.reverse.flatMap fun offset =>
          (select ⟨.offsetEnd offset, size, sort⟩ rows).rows) =
        rows.drop (rows.length - reached))
    (by rw [Nat.sub_zero, List.drop_length]; rfl)
    (by
      intro offsets reached hrows
      rw [List.reverse_append, List.reverse_singleton, List.flatMap_append, hrows,
        List.flatMap_singleton, select_offsetEnd_append])
    rows.length
  rw [hrows, Nat.sub_eq_zero_of_le hreached, List.drop_zero]

/-- A page is a run of the rows; its bounds are the same when they are computed in words; the pages
behind the multiples of a size are the whole result, each row once, counted from either end; and the
pages at the two ends are those at the distance zero. -/
theorem select_tiles (rows : List α) :
    (∀ p : PageRequest, (p.select rows).IsRun rows p.size) ∧
    (∀ p : PageRequest, p.FitsWords → rows.length ≤ Limits.unsigned64 →
      (p.wordBounds (.ofNat rows.length)).1.toNat = (p.select rows).offset ∧
      (p.wordBounds (.ofNat rows.length)).2.toNat =
        (p.select rows).offset + (p.select rows).rows.length) ∧
    (∀ size sort, 0 < size →
      ((multiplesBelow size rows.length).flatMap fun offset =>
        (select ⟨.offsetStart offset, size, sort⟩ rows).rows) = rows ∧
      ((multiplesBelow size rows.length).reverse.flatMap fun offset =>
        (select ⟨.offsetEnd offset, size, sort⟩ rows).rows) = rows) ∧
    (∀ size sort,
      select ⟨.beginning, size, sort⟩ rows = select ⟨.offsetStart 0, size, sort⟩ rows ∧
      select ⟨.ending, size, sort⟩ rows = select ⟨.offsetEnd 0, size, sort⟩ rows) := by
  refine ⟨fun p => isRun_select p rows, fun p hp hrows => ?_, fun size sort hsize => ?_,
    fun size sort => ?_⟩
  · have hwords := toNat_wordBounds hp (.ofNat rows.length)
    rw [toNat_ofNat_word hrows] at hwords
    obtain ⟨hfirst, hlast⟩ := Prod.mk.inj hwords
    obtain ⟨hle, -, -⟩ := p.bounds_le rows.length
    refine ⟨hfirst, ?_⟩
    rw [length_select_rows]
    exact hlast.trans (Nat.add_sub_cancel' hle).symm
  · exact ⟨flatMap_select_offsetStart hsize rows, flatMap_select_offsetEnd hsize rows⟩
  · have hbeginning : bounds ⟨.beginning, size, sort⟩ rows.length =
        bounds ⟨.offsetStart 0, size, sort⟩ rows.length := by
      simp only [bounds, Nat.zero_min, Nat.zero_add]
    have hending : bounds ⟨.ending, size, sort⟩ rows.length =
        bounds ⟨.offsetEnd 0, size, sort⟩ rows.length := by
      simp only [bounds, Prod.mk.injEq]
      omega
    exact ⟨by rw [select, hbeginning, select], by rw [select, hending, select]⟩

/-- All that stands behind three rows, in so far as words can say it. -/
def behindThree : PageRequest := ⟨.offsetStart 3, Limits.unsigned64, none⟩

theorem select_tiles_letters :
    ['a', 'b', 'c', 'd', 'e'].length ≤ Limits.unsigned64 ∧ behindThree.FitsWords ∧
      (behindThree.select ['a', 'b', 'c', 'd', 'e']).rows = ['d', 'e'] ∧
      (behindThree.wordBounds (.ofNat 5)).2.toNat = 3 + 2 ∧
      multiplesBelow 2 5 = [0, 2, 4] ∧
      ((multiplesBelow 2 5).reverse.flatMap fun offset =>
        (select ⟨.offsetEnd offset, 2, none⟩ ['a', 'b', 'c', 'd', 'e']).rows) =
          ['a', 'b', 'c', 'd', 'e'] := by
  have hrows : ['a', 'b', 'c', 'd', 'e'].length ≤ Limits.unsigned64 := by decide
  have hfits : behindThree.FitsWords := by decide
  obtain ⟨-, hwords, htiles, -⟩ := select_tiles ['a', 'b', 'c', 'd', 'e']
  exact ⟨hrows, hfits, rfl, (hwords behindThree hfits hrows).2, by decide,
    (htiles 2 none (by decide)).2⟩

end PageRequest
end ResourceQuery
