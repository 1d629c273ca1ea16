import Mathlib.Data.List.DropRight
import ResourceQuery.Proofs.Page.Tiling

/-!
# Pages as slices

A slice of a list leaves out some elements at one end and goes on from there with at most so many
others.  Every page is a slice, counted from the end at which it starts.
-/

namespace ResourceQuery

variable {α β : Type} {size : Option Nat} {skip : Nat} {fromEnd : Bool} {xs : List α}

/-- The elements behind the first so many, or in front of the last so many when they are counted
from the end: as many as the size says, or all of them without a size. -/
def slice (size : Option Nat) (skip : Nat) (fromEnd : Bool) (xs : List α) : List α :=
  match fromEnd, size with
  | false, none => xs.drop skip
  | false, some n => (xs.drop skip).take n
  | true, none => xs.rdrop skip
  | true, some n => (xs.rdrop skip).rtake n

theorem slice_map (f : α → β) (xs : List α) :
    slice size skip fromEnd (xs.map f) = (slice size skip fromEnd xs).map f := by
  unfold slice
  cases fromEnd <;> cases size <;>
    simp only [List.rdrop, List.rtake, List.map_drop, List.map_take, List.length_map,
      List.length_take]

/-- Without a size the whole list is its own slice only if nothing is left out. -/
theorem slice_none_eq_self_iff : slice none skip fromEnd xs = xs ↔ skip = 0 ∨ xs = [] := by
  constructor
  · intro h
    have hlength : xs.length - skip = xs.length := by
      have hslice := congrArg List.length h
      cases fromEnd with
      | false => rwa [slice, List.length_drop] at hslice
      | true =>
        rwa [slice, List.rdrop, List.length_take, Nat.min_eq_left (Nat.sub_le _ _)] at hslice
    rw [← List.length_eq_zero_iff]
    omega
  · rintro (rfl | rfl)
    · cases fromEnd with
      | false => rfl
      | true => exact List.rdrop_zero xs
    · cases fromEnd with
      | false => exact List.drop_nil
      | true => exact List.rdrop_nil skip

/-- A size that no list exceeds is no limit. -/
theorem slice_of_length_le {n : Nat} (h : xs.length ≤ n) :
    slice (some n) skip fromEnd xs = slice none skip fromEnd xs := by
  cases fromEnd with
  | false =>
    refine List.take_of_length_le ?_
    rw [List.length_drop]
    omega
  | true =>
    have hlength : (xs.rdrop skip).length - n = 0 := by
      rw [List.rdrop, List.length_take]
      omega
    rw [slice, slice, List.rtake, hlength, List.drop_zero]

/-- Whether a page is counted from the last row. -/
def StartingPoint.countsBack : StartingPoint → Bool
  | .beginning | .offsetStart _ => false
  | .ending | .offsetEnd _ => true

namespace PageRequest

theorem select_offsetEnd {offset n : Nat} {sort : Option (List SortKey)} (rows : List α) :
    (select ⟨.offsetEnd offset, n, sort⟩ rows).rows = (rows.rdrop offset).rtake n := by
  have hlength : (rows.rdrop offset).length = rows.length - offset := by
    rw [List.rdrop, List.length_take, Nat.min_eq_left (Nat.sub_le _ _)]
  rw [select_rows, List.rtake, hlength, List.rdrop, List.drop_take]
  rfl

/-- The rows of a page are the slice of its size at the distance where it starts. -/
theorem select_eq_slice (p : PageRequest) (rows : List α) :
    (p.select rows).rows = slice (some p.size) p.start.distance p.start.countsBack rows := by
  obtain ⟨start, n, sort⟩ := p
  -- A page at an end is the one at the distance zero from it.
  cases start with
  | beginning =>
    have hbounds : bounds ⟨.beginning, n, sort⟩ rows.length =
        bounds ⟨.offsetStart 0, n, sort⟩ rows.length := by
      simp only [bounds, Nat.zero_min, Nat.zero_add]
    rw [select, hbounds]
    exact select_offsetStart 0
  | ending =>
    have hbounds : bounds ⟨.ending, n, sort⟩ rows.length =
        bounds ⟨.offsetEnd 0, n, sort⟩ rows.length := by
      simp only [bounds, Prod.mk.injEq]
      omega
    rw [select, hbounds]
    exact select_offsetEnd rows
  | offsetStart offset => exact select_offsetStart offset
  | offsetEnd offset => exact select_offsetEnd rows

end PageRequest
end ResourceQuery
