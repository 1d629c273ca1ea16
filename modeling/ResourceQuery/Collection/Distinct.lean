/-!
# Distinct elements in the manner of a hash table

A hash table takes two values for one when they agree and have the same fingerprint, the
data from which their hash is computed.  Agreement alone is not enough: values can agree
without having the same fingerprint, and then both are kept.
-/

namespace ResourceQuery

/-- A piece of data from which a hash is computed. -/
inductive Mark where
  /-- A number: the kind of a value, or a length. -/
  | number (n : Nat)
  | text (s : String)
deriving DecidableEq

/-- The data from which the hash of a value is computed. -/
abbrev Fingerprint := List Mark

namespace Distinct

variable {α : Type}

/-- Whether a hash table takes two values for one. -/
def same (fingerprint : α → Fingerprint) (agrees : α → α → Bool) (x y : α) : Bool :=
  agrees x y && fingerprint x == fingerprint y

/-- Go through a list and keep what is not the same as an element kept before. -/
def keepNew (same : α → α → Bool) (kept : List α) : List α → List α
  | [] => []
  | x :: xs =>
    if kept.any (same · x) then keepNew same kept xs
    else x :: keepNew same (kept ++ [x]) xs

/-- The first occurrences of the elements of a list, in order. -/
def firsts (fingerprint : α → Fingerprint) (agrees : α → α → Bool) (xs : List α) : List α :=
  keepNew (same fingerprint agrees) [] xs

theorem keepNew_sublist (same : α → α → Bool) (kept xs : List α) :
    (keepNew same kept xs).Sublist xs := by
  induction xs generalizing kept with
  | nil => exact List.Sublist.slnil
  | cons x xs ih =>
    simp only [keepNew]
    split
    · exact (ih kept).cons x
    · exact (ih _).cons_cons x

/-- Every element of the list is the same as one that is kept, if sameness is reflexive. -/
theorem exists_same_of_mem {same : α → α → Bool} (refl : ∀ x, same x x) {kept xs : List α}
    {x : α} (h : x ∈ xs) : ∃ y ∈ kept ++ keepNew same kept xs, same y x := by
  induction xs generalizing kept with
  | nil => simp at h
  | cons z xs ih =>
    simp only [keepNew]
    by_cases hz : kept.any (same · z)
    · rw [if_pos hz]
      rcases List.mem_cons.1 h with rfl | h
      · obtain ⟨y, hy, hs⟩ := List.any_eq_true.1 hz
        exact ⟨y, List.mem_append_left _ hy, hs⟩
      · exact ih h
    · rw [if_neg hz]
      rcases List.mem_cons.1 h with rfl | h
      · exact ⟨x, by simp, refl x⟩
      · obtain ⟨y, hy, hs⟩ := @ih (kept ++ [z]) h
        exact ⟨y, by simpa [List.append_assoc] using hy, hs⟩

/-- No two elements that are kept are the same. -/
theorem pairwise_keepNew (same : α → α → Bool) (kept xs : List α) :
    (keepNew same kept xs).Pairwise (fun x y => same x y = false) ∧
      ∀ x ∈ kept, ∀ y ∈ keepNew same kept xs, same x y = false := by
  induction xs generalizing kept with
  | nil => simp [keepNew]
  | cons x xs ih =>
    simp only [keepNew]
    split
    · exact ih kept
    · rename_i hnew
      have hx : ∀ y ∈ kept, same y x = false := by simpa using hnew
      obtain ⟨hpairwise, hkept⟩ := ih (kept ++ [x])
      refine ⟨List.pairwise_cons.2 ⟨hkept x (by simp), hpairwise⟩, fun y hy => ?_⟩
      exact List.forall_mem_cons.2 ⟨hx y hy, hkept y (List.mem_append_left _ hy)⟩

theorem pairwise_firsts (fingerprint : α → Fingerprint) (agrees : α → α → Bool) (xs : List α) :
    (firsts fingerprint agrees xs).Pairwise fun x y => same fingerprint agrees x y = false :=
  (pairwise_keepNew _ [] xs).1

/-- A test that does not tell same elements apart can be made before or after. -/
theorem keepNew_filter {same : α → α → Bool} {keep : α → Bool}
    (hkeep : ∀ x y, same x y = true → keep x = keep y) (kept xs : List α) :
    (keepNew same kept xs).filter keep =
      keepNew same (kept.filter keep) (xs.filter keep) := by
  induction xs generalizing kept with
  | nil => rfl
  | cons x xs ih =>
    by_cases hx : keep x = true
    · have hany : (kept.filter keep).any (same · x) = kept.any (same · x) := by
        rw [List.any_filter]
        congr 1
        funext y
        cases hs : same y x with
        | false => simp
        | true => simp [hkeep y x hs, hx]
      rw [List.filter_cons_of_pos hx]
      simp only [keepNew, hany]
      split
      · exact ih kept
      · rw [List.filter_cons_of_pos hx, ih, List.filter_append, List.filter_cons_of_pos hx,
          List.filter_nil]
    · rw [List.filter_cons_of_neg hx]
      simp only [keepNew]
      split
      · exact ih kept
      · rw [List.filter_cons_of_neg hx, ih, List.filter_append, List.filter_cons_of_neg hx,
          List.filter_nil, List.append_nil]

theorem firsts_filter {fingerprint : α → Fingerprint} {agrees : α → α → Bool}
    {keep : α → Bool} (hkeep : ∀ x y, same fingerprint agrees x y = true → keep x = keep y)
    (xs : List α) :
    (firsts fingerprint agrees xs).filter keep = firsts fingerprint agrees (xs.filter keep) :=
  keepNew_filter hkeep [] xs

/-- Elements of which no two are the same are all kept. -/
theorem keepNew_eq_self {same : α → α → Bool} {kept xs : List α}
    (h : (kept ++ xs).Pairwise fun x y => same x y = false) : keepNew same kept xs = xs := by
  induction xs generalizing kept with
  | nil => rfl
  | cons x xs ih =>
    have hx : ∀ y ∈ kept, same y x = false :=
      fun y hy => (List.pairwise_append.1 h).2.2 y hy x List.mem_cons_self
    have hnew : ¬ kept.any (same · x) = true := by simpa using hx
    have hrest : keepNew same (kept ++ [x]) xs = xs := ih (by simpa using h)
    rw [keepNew, if_neg hnew, hrest]

theorem firsts_eq_nil_iff {fingerprint : α → Fingerprint} {agrees : α → α → Bool}
    {xs : List α} : firsts fingerprint agrees xs = [] ↔ xs = [] := by
  cases xs <;> simp [firsts, keepNew]

end Distinct
end ResourceQuery
