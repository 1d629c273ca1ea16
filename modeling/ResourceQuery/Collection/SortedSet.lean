import ResourceQuery.Collection.Entries

/-!
# Finite sets in increasing order

A `SortedSet` is a strictly increasing list.  Two sets with the same members are equal.
-/

namespace ResourceQuery

universe u

/-- A finite set, kept in increasing order. -/
structure SortedSet (α : Type u) [Ord α] where
  /-- The members in increasing order. -/
  toList : List α
  sorted : toList.Pairwise fun a b => compare a b = .lt

namespace SortedSet

variable {α : Type u} [Ord α]

instance [DecidableEq α] : DecidableEq (SortedSet α) := fun s t =>
  decidable_of_iff (s.toList = t.toList) (by cases s; cases t; simp)

/-- The set without members. -/
def empty : SortedSet α := ⟨[], List.Pairwise.nil⟩

instance : EmptyCollection (SortedSet α) := ⟨empty⟩

instance : Inhabited (SortedSet α) := ⟨empty⟩

instance : Membership α (SortedSet α) := ⟨fun s a => a ∈ s.toList⟩

instance [DecidableEq α] (a : α) (s : SortedSet α) : Decidable (a ∈ s) :=
  inferInstanceAs (Decidable (a ∈ s.toList))

/-- Whether the set has no member. -/
def isEmpty (s : SortedSet α) : Bool := s.toList.isEmpty

/-- Put an element in its place in an increasing list. -/
def insertList (a : α) : List α → List α
  | [] => [a]
  | b :: rest =>
    match compare a b with
    | .lt => a :: b :: rest
    | .eq => b :: rest
    | .gt => b :: insertList a rest

theorem mem_insertList_imp {a b : α} {xs : List α} (h : b ∈ insertList a xs) :
    b = a ∨ b ∈ xs := by
  induction xs with
  | nil => simpa [insertList] using h
  | cons x xs ih =>
    simp only [insertList] at h
    split at h
    · simpa using h
    · exact .inr h
    · rcases List.mem_cons.1 h with h | h
      · exact .inr (h ▸ List.mem_cons_self)
      · exact (ih h).imp_right (List.mem_cons_of_mem _)

@[simp] theorem not_mem_empty (a : α) : ¬ a ∈ (∅ : SortedSet α) := List.not_mem_nil

theorem isEmpty_iff_forall_not_mem {s : SortedSet α} : s.isEmpty = true ↔ ∀ a, ¬ a ∈ s := by
  rw [isEmpty, List.isEmpty_iff, List.eq_nil_iff_forall_not_mem]
  rfl

theorem isEmpty_eq_false {s : SortedSet α} {a : α} (h : a ∈ s) : s.isEmpty = false :=
  Bool.eq_false_iff.2 fun hempty => isEmpty_iff_forall_not_mem.1 hempty a h

variable [Std.TransOrd α]

theorem pairwise_insertList {a : α} {xs : List α}
    (h : xs.Pairwise fun a b => compare a b = .lt) :
    (insertList a xs).Pairwise fun a b => compare a b = .lt := by
  induction xs with
  | nil => simp [insertList]
  | cons x xs ih =>
    obtain ⟨hhead, htail⟩ := List.pairwise_cons.1 h
    simp only [insertList]
    split
    · rename_i hlt
      refine List.pairwise_cons.2 ⟨fun b hb => ?_, h⟩
      rcases List.mem_cons.1 hb with rfl | hb
      · exact hlt
      · exact Std.TransCmp.lt_trans hlt (hhead b hb)
    · exact h
    · rename_i hgt
      refine List.pairwise_cons.2 ⟨fun b hb => ?_, ih htail⟩
      rcases mem_insertList_imp hb with rfl | hb
      · exact Std.OrientedCmp.lt_of_gt hgt
      · exact hhead b hb

/-- Add an element. -/
def insert (s : SortedSet α) (a : α) : SortedSet α :=
  ⟨insertList a s.toList, pairwise_insertList s.sorted⟩

/-- Add every element of a list. -/
def insertMany (s : SortedSet α) (xs : List α) : SortedSet α :=
  xs.foldl insert s

/-- The set of the elements of a list. -/
def ofList (xs : List α) : SortedSet α := insertMany ∅ xs

@[ext] theorem ext_mem {s t : SortedSet α} (h : ∀ a, a ∈ s ↔ a ∈ t) : s = t := by
  obtain ⟨xs, hx⟩ := s
  obtain ⟨ys, hy⟩ := t
  obtain rfl : xs = ys := eq_of_pairwise_of_mem_iff Std.OrientedCmp.not_lt_of_lt hx hy h
  rfl

variable [Std.LawfulEqOrd α]

@[simp] theorem mem_insert {s : SortedSet α} {a b : α} : b ∈ s.insert a ↔ b = a ∨ b ∈ s := by
  constructor
  · exact mem_insertList_imp
  · show _ → b ∈ insertList a s.toList
    have hs : b ∈ s ↔ b ∈ s.toList := Iff.rfl
    rw [hs]
    generalize s.toList = xs
    induction xs with
    | nil => simp [insertList]
    | cons x xs ih =>
      intro h
      simp only [insertList]
      split
      · simpa using h
      · rename_i heq
        obtain rfl := Std.LawfulEqCmp.compare_eq_iff_eq.1 heq
        simpa using h
      · rcases h with h | h
        · exact List.mem_cons_of_mem _ (ih (.inl h))
        · rcases List.mem_cons.1 h with rfl | h
          · exact List.mem_cons_self
          · exact List.mem_cons_of_mem _ (ih (.inr h))

@[simp] theorem mem_insertMany {s : SortedSet α} {xs : List α} {a : α} :
    a ∈ s.insertMany xs ↔ a ∈ s ∨ a ∈ xs := by
  induction xs generalizing s with
  | nil => simp [insertMany]
  | cons x xs ih =>
    have h := ih (s := s.insert x)
    simp only [insertMany, List.foldl_cons, mem_insert, List.mem_cons] at h ⊢
    rw [h]
    exact ⟨fun | .inl (.inl e) => .inr (.inl e) | .inl (.inr m) => .inl m | .inr m => .inr (.inr m),
      fun | .inl m => .inl (.inr m) | .inr (.inl e) => .inl (.inl e) | .inr (.inr m) => .inr m⟩

@[simp] theorem mem_ofList {xs : List α} {a : α} : a ∈ ofList xs ↔ a ∈ xs := by
  simp [ofList]

theorem insertMany_comm (s : SortedSet α) (xs ys : List α) :
    (s.insertMany xs).insertMany ys = (s.insertMany ys).insertMany xs := by
  ext a
  simp only [mem_insertMany]
  exact or_right_comm

/-- Members can be added without effect. -/
theorem insertMany_of_mem {s : SortedSet α} {xs : List α} (h : ∀ a ∈ xs, a ∈ s) :
    s.insertMany xs = s := by
  ext a
  rw [mem_insertMany]
  exact or_iff_left_of_imp (h a)

theorem insertMany_self (s : SortedSet α) (xs : List α) :
    (s.insertMany xs).insertMany xs = s.insertMany xs :=
  insertMany_of_mem fun _ ha => mem_insertMany.2 (.inr ha)

/-- Only the members of a list count when they are added. -/
theorem insertMany_congr (s : SortedSet α) {xs ys : List α} (h : ∀ a, a ∈ xs ↔ a ∈ ys) :
    s.insertMany xs = s.insertMany ys := by
  ext a
  simp only [mem_insertMany, h]

end SortedSet
end ResourceQuery
