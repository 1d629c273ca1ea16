import ResourceQuery.Proofs.Page.RowOrder

/-!
# Stable sorting

A list is sorted stably when its elements are put in order and those that compare equal keep their
order among themselves.  For a comparison that is a total preorder there is one such list and no
more, so it does not matter how it is found.  The comparison of rows is a total preorder for every
list of sort keys, and sorting rows gives that list.
-/

namespace ResourceQuery

section

variable {α : Type} {cmp : α → α → Ordering} {x y : α} {xs ys zs sorted : List α}

/-- The elements that compare equal to one. -/
def equalTo (cmp : α → α → Ordering) (x : α) (xs : List α) : List α :=
  xs.filter fun y => cmp x y == .eq

theorem mem_equalTo : y ∈ equalTo cmp x xs ↔ y ∈ xs ∧ cmp x y = .eq := by
  rw [equalTo, List.mem_filter, beq_iff_eq]

theorem equalTo_sublist (x : α) (xs : List α) : (equalTo cmp x xs).Sublist xs :=
  List.filter_sublist

theorem equalTo_cons_of_eq (h : cmp x y = .eq) :
    equalTo cmp x (y :: ys) = y :: equalTo cmp x ys :=
  List.filter_cons_of_pos (beq_iff_eq.2 h)

theorem equalTo_cons_of_ne (h : cmp x y ≠ .eq) : equalTo cmp x (y :: ys) = equalTo cmp x ys :=
  List.filter_cons_of_neg (mt beq_iff_eq.1 h)

theorem equalTo_equalTo (x : α) (xs : List α) :
    equalTo cmp x (equalTo cmp x xs) = equalTo cmp x xs := by
  rw [equalTo, List.filter_eq_self]
  exact fun y hy => beq_iff_eq.2 (mem_equalTo.1 hy).2

/-- A list is sorted: it holds the same elements in order, and those that compare equal to one
follow each other as they did before. -/
structure StablySorts (cmp : α → α → Ordering) (xs sorted : List α) : Prop where
  perm : sorted.Perm xs
  ordered : sorted.Pairwise fun x y => (cmp x y).isLE = true
  stable : ∀ x, equalTo cmp x sorted = equalTo cmp x xs

variable [Std.TransCmp cmp]

theorem isLE_or_isLE (x y : α) : (cmp x y).isLE = true ∨ (cmp y x).isLE = true := by
  have hswap : cmp y x = (cmp x y).swap := Std.OrientedCmp.eq_swap
  rw [hswap]
  cases cmp x y with
  | lt => exact .inl rfl
  | eq => exact .inl rfl
  | gt => exact .inr rfl

theorem stablySorts_mergeSort (xs : List α) :
    StablySorts cmp xs (xs.mergeSort fun x y => (cmp x y).isLE) := by
  have htrans : ∀ x y z, (cmp x y).isLE = true → (cmp y z).isLE = true → (cmp x z).isLE = true :=
    fun _ _ _ => Std.TransCmp.isLE_trans
  have htotal : ∀ x y, ((cmp x y).isLE || (cmp y x).isLE) = true :=
    fun x y => Bool.or_eq_true_iff.2 (isLE_or_isLE x y)
  have hperm := xs.mergeSort_perm fun x y => (cmp x y).isLE
  refine ⟨hperm, List.pairwise_mergeSort htrans htotal xs, fun x => ?_⟩
  -- Elements that compare equal to one element are in order as they stand.
  have hequal : (equalTo cmp x xs).Pairwise fun y z => (cmp y z).isLE = true := by
    refine List.pairwise_of_forall_mem_list fun y hy z hz => ?_
    have hyx : cmp y x = .eq := Std.OrientedCmp.eq_symm (mem_equalTo.1 hy).2
    rw [Std.TransCmp.congr_left hyx, (mem_equalTo.1 hz).2]
    rfl
  have hkept := List.sublist_mergeSort htrans htotal hequal (equalTo_sublist x xs)
  have hequals : (equalTo cmp x xs).Sublist
      (equalTo cmp x (xs.mergeSort fun x y => (cmp x y).isLE)) := by
    rw [← equalTo_equalTo]
    exact hkept.filter _
  exact (hequals.eq_of_length (hperm.filter _).length_eq.symm).symm

namespace StablySorts

/-- The least element comes first, and of the elements that compare equal to it the one that came
first among them. -/
theorem unique (h : StablySorts cmp xs ys) (h' : StablySorts cmp xs zs) : ys = zs := by
  have hperm : ys.Perm zs := h.perm.trans h'.perm.symm
  have hequals (x : α) : equalTo cmp x ys = equalTo cmp x zs :=
    (h.stable x).trans (h'.stable x).symm
  have hys := h.ordered
  have hzs := h'.ordered
  clear h h'
  induction ys generalizing zs with
  | nil => exact hperm.nil_eq
  | cons y ys ih =>
    cases zs with
    | nil => exact absurd hperm.length_eq nofun
    | cons z zs =>
      have hle {x u : α} {rest : List α}
          (hrest : (x :: rest).Pairwise fun x y => (cmp x y).isLE = true)
          (hu : u ∈ x :: rest) : (cmp x u).isLE = true := by
        rcases List.mem_cons.1 hu with rfl | hu
        · exact Std.ReflCmp.isLE_rfl
        · exact (List.pairwise_cons.1 hrest).1 u hu
      have hyz : cmp y z = .eq := Std.OrientedCmp.isLE_antisymm
        (hle hys (hperm.mem_iff.2 List.mem_cons_self))
        (hle hzs (hperm.mem_iff.1 List.mem_cons_self))
      have hfirst := hequals y
      rw [equalTo_cons_of_eq Std.ReflCmp.compare_self, equalTo_cons_of_eq hyz] at hfirst
      obtain ⟨rfl, -⟩ := List.cons.inj hfirst
      refine congrArg (y :: ·) (ih hperm.cons_inv (fun x => ?_) hys.of_cons hzs.of_cons)
      have hrest := hequals x
      by_cases hxy : cmp x y = .eq
      · rw [equalTo_cons_of_eq hxy, equalTo_cons_of_eq hxy] at hrest
        exact (List.cons.inj hrest).2
      · rwa [equalTo_cons_of_ne hxy, equalTo_cons_of_ne hxy] at hrest

/-- Two elements that compare equal stand in the order in which they stood. -/
theorem pair_sublist_iff (h : StablySorts cmp xs sorted) (hxy : cmp x y = .eq) :
    [x, y].Sublist sorted ↔ [x, y].Sublist xs := by
  have hpair {zs : List α} : [x, y].Sublist (equalTo cmp x zs) ↔ [x, y].Sublist zs := by
    constructor
    · exact fun hzs => hzs.trans (equalTo_sublist x zs)
    · intro hzs
      have hboth : equalTo cmp x [x, y] = [x, y] := by
        rw [equalTo_cons_of_eq Std.ReflCmp.compare_self, equalTo_cons_of_eq hxy]
        rfl
      rw [← hboth]
      exact hzs.filter _
  rw [← hpair, h.stable x, hpair]

/-- A relation that follows from the strict order holds all along the sorted list exactly when it
holds between any two elements of the given list that compare equal. -/
theorem pairwise_iff (h : StablySorts cmp xs sorted) {R : α → α → Prop}
    (hlt : ∀ x ∈ xs, ∀ y ∈ xs, cmp x y = .lt → R x y) :
    sorted.Pairwise R ↔ xs.Pairwise fun x y => cmp x y = .eq → R x y := by
  rw [List.pairwise_iff_forall_sublist, List.pairwise_iff_forall_sublist]
  constructor
  · intro hsorted x y hsublist hxy
    exact hsorted ((h.pair_sublist_iff hxy).2 hsublist)
  · intro hequal x y hsublist
    have hle := List.pairwise_iff_forall_sublist.1 h.ordered hsublist
    cases hxy : cmp x y with
    | lt =>
      have hmem {z : α} (hz : z ∈ [x, y]) : z ∈ xs := h.perm.mem_iff.1 (hsublist.subset hz)
      exact hlt x (hmem List.mem_cons_self) y
        (hmem (List.mem_cons_of_mem x List.mem_cons_self)) hxy
    | eq => exact hequal ((h.pair_sublist_iff hxy).1 hsublist) hxy
    | gt =>
      rw [hxy] at hle
      cases hle

end StablySorts

end

/-! ## Rows -/

theorem stablySorts_sortRows (keys : List SortKey) (rows : List Resource) :
    StablySorts (compareRows keys) rows (sortRows keys rows) := stablySorts_mergeSort rows

/-- The comparison of rows by any sort keys is reflexive, total and transitive, and sorting rows
gives the one list that is sorted stably. -/
theorem sortRows_eq_iff_stablySorts (keys : List SortKey) :
    (∀ r, compareRows keys r r = .eq) ∧
    (∀ r s, (compareRows keys r s).isLE = true ∨ (compareRows keys s r).isLE = true) ∧
    (∀ r s t, (compareRows keys r s).isLE = true → (compareRows keys s t).isLE = true →
      (compareRows keys r t).isLE = true) ∧
    (∀ r s, compareRows keys s r = (compareRows keys r s).swap) ∧
    ∀ rows sorted, sortRows keys rows = sorted ↔ StablySorts (compareRows keys) rows sorted := by
  refine ⟨fun r => Std.ReflCmp.compare_self, isLE_or_isLE, fun r s t => Std.TransCmp.isLE_trans,
    fun r s => Std.OrientedCmp.eq_swap, fun rows sorted => ?_⟩
  constructor
  · rintro rfl
    exact stablySorts_sortRows keys rows
  · exact fun h => (stablySorts_sortRows keys rows).unique h

/-- A shelf with a value that says how full it is. -/
def shelfRow (name : String) (fill : Json) : Resource :=
  ⟨⟨"Shelf"⟩, .ofList [(⟨"fill"⟩, fill), (⟨"name"⟩, .string name)]⟩

/-- By descending fill, then by name. -/
def fullestFirst : List SortKey := [⟨⟨"fill"⟩, .descending⟩, ⟨⟨"name"⟩, .ascending⟩]

/-- Lists are not told apart, and in descending order they come before truth values. -/
theorem shelves_stablySorted :
    let shelves := [shelfRow "s0" (.bool true), shelfRow "s1" (.array [])]
    (compareRows fullestFirst (shelfRow "s1" (.array [])) (shelfRow "s2" (.array [.null]))).isLE ∧
      (compareRows fullestFirst (shelfRow "s2" (.array [.null]))
        (shelfRow "s0" (.bool true))).isLE ∧
      (compareRows fullestFirst (shelfRow "s1" (.array [])) (shelfRow "s0" (.bool true))).isLE ∧
      StablySorts (compareRows fullestFirst) shelves (sortRows fullestFirst shelves) := by
  obtain ⟨-, -, htrans, -, hsorts⟩ := sortRows_eq_iff_stablySorts fullestFirst
  have hlists : (compareRows fullestFirst (shelfRow "s1" (.array []))
      (shelfRow "s2" (.array [.null]))).isLE = true := by decide +kernel
  have hkinds : (compareRows fullestFirst (shelfRow "s2" (.array [.null]))
      (shelfRow "s0" (.bool true))).isLE = true := by decide +kernel
  exact ⟨hlists, hkinds, htrans _ _ _ hlists hkinds, (hsorts _ _).1 rfl⟩

end ResourceQuery
