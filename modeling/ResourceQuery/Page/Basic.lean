import ResourceQuery.Page.Sort

/-!
# Pages

A page is a run of consecutive rows.  It starts at an end of the result or at a distance from
one, and holds a given number of rows or fewer where the result ends.
-/

namespace ResourceQuery

/-- Where a page lies in a result. -/
inductive StartingPoint where
  /-- At the first row. -/
  | beginning
  /-- At the last row, counted back. -/
  | ending
  /-- Behind this many rows. -/
  | offsetStart (offset : Nat)
  /-- In front of this many last rows, counted back. -/
  | offsetEnd (offset : Nat)
deriving DecidableEq

/-- A page that is asked for. -/
structure PageRequest where
  start : StartingPoint
  size : Nat
  /-- By what the rows are sorted first, if they are. -/
  sort : Option (List SortKey)
deriving DecidableEq

/-- A run of rows of a result. -/
structure Page (α : Type) where
  rows : List α
  /-- How many rows of the result come before it. -/
  offset : Nat
  total : Nat

namespace PageRequest

/-- The first row of the page and the row behind its last one, in a result of so many rows. -/
def bounds (p : PageRequest) (total : Nat) : Nat × Nat :=
  match p.start with
  | .beginning => (0, min p.size total)
  | .ending => (total - p.size, min (total - p.size + p.size) total)
  | .offsetStart offset => (min offset total, min (min offset total + p.size) total)
  | .offsetEnd offset => (total - offset - p.size, total - offset)

/-- Cut the page out of a result. -/
def select {α : Type} (p : PageRequest) (rows : List α) : Page α :=
  let (first, last) := p.bounds rows.length
  ⟨(rows.drop first).take (last - first), first, rows.length⟩

/-- The page of sorted rows. -/
def selectSorted (p : PageRequest) (rows : List Resource) : Page Resource :=
  p.select (match p.sort with
    | some keys => sortRows keys rows
    | none => rows)

end PageRequest
end ResourceQuery
