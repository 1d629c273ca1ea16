/-!
# Association lists in key order

Objects, tables and bindings are all finite maps whose order of iteration can be seen: it is
the order of the keys.  This file holds the operations on the underlying lists of entries.
They are usable inside nested inductive types, where a list can stand and a bundled map
cannot; `SortedMap` bundles the list with the proof that it is in order.

The main statements say what look-up finds after an insertion, and that insertion keeps
the entries in order.
-/

namespace ResourceQuery

universe u v

/-- Two lists in a strict order are the same list if they have the same members. -/
theorem eq_of_pairwise_of_mem_iff {α : Type u} {r : α → α → Prop}
    (hasymm : ∀ {a b : α}, r a b → ¬ r b a) {xs ys : List α} (hx : xs.Pairwise r)
    (hy : ys.Pairwise r) (h : ∀ a, a ∈ xs ↔ a ∈ ys) : xs = ys := by
  have hne : ∀ {a b : α}, r a b → a ≠ b := by
    rintro a _ hab rfl
    exact hasymm hab hab
  have hperm : xs.Perm ys := (List.perm_ext_iff_of_nodup (hx.imp hne) (hy.imp hne)).2 h
  exact hperm.eq_of_pairwise (fun _ _ _ _ hab hba => absurd hba (hasymm hab)) hx hy

namespace Entries

variable {κ : Type u} {α : Type v} [Ord κ]

/-- The value stored at a key, if the key occurs. -/
def get? (k : κ) : List (κ × α) → Option α
  | [] => none
  | (k', a) :: rest => if compare k k' = .eq then some a else get? k rest

/-- Store a value at a key: the entry of that key is replaced, and a new key goes in front
of the first greater one. -/
def insert (k : κ) (a : α) : List (κ × α) → List (κ × α)
  | [] => [(k, a)]
  | (k', a') :: rest =>
    match compare k k' with
    | .lt => (k, a) :: (k', a') :: rest
    | .eq => (k, a) :: rest
    | .gt => (k', a') :: insert k a rest

/-- Insert the pairs one after the other, so that the last value of a key stays. -/
def ofList (pairs : List (κ × α)) : List (κ × α) :=
  pairs.foldl (fun entries p => insert p.1 p.2 entries) []

/-- The keys increase strictly. -/
def Sorted (entries : List (κ × α)) : Prop :=
  entries.Pairwise fun x y => compare x.1 y.1 = .lt

@[simp] theorem get?_nil (k : κ) : get? k ([] : List (κ × α)) = none := rfl

theorem sorted_nil : Sorted ([] : List (κ × α)) := List.Pairwise.nil

theorem mem_insert {k : κ} {a : α} {entries : List (κ × α)} {p : κ × α}
    (h : p ∈ insert k a entries) : p = (k, a) ∨ p ∈ entries := by
  induction entries with
  | nil => simpa [insert] using h
  | cons e rest ih =>
    obtain ⟨k', a'⟩ := e
    simp only [insert] at h
    split at h
    · simpa using h
    · rcases List.mem_cons.1 h with h | h
      · exact .inl h
      · exact .inr (List.mem_cons_of_mem _ h)
    · rcases List.mem_cons.1 h with h | h
      · exact .inr (h ▸ List.mem_cons_self)
      · exact (ih h).imp_right (List.mem_cons_of_mem _)

theorem mem_of_mem_foldl_insert {pairs entries : List (κ × α)} {p : κ × α}
    (h : p ∈ pairs.foldl (fun es q => insert q.1 q.2 es) entries) : p ∈ entries ∨ p ∈ pairs := by
  induction pairs generalizing entries with
  | nil => exact .inl h
  | cons q rest ih =>
    rcases ih h with h | h
    · exact (mem_insert h).elim (fun e => .inr (e ▸ List.mem_cons_self)) .inl
    · exact .inr (List.mem_cons_of_mem _ h)

theorem mem_of_mem_ofList {pairs : List (κ × α)} {p : κ × α} (h : p ∈ ofList pairs) :
    p ∈ pairs := by
  simpa using mem_of_mem_foldl_insert h

theorem Sorted.filterMap {β : Type v} {entries : List (κ × α)} (h : Sorted entries)
    (f : κ → α → Option β) :
    Sorted (entries.filterMap fun p => (f p.1 p.2).map (p.1, ·)) := by
  refine List.pairwise_filterMap.2 (h.imp fun {x y} hxy p hp q hq => ?_)
  obtain ⟨a, -, rfl⟩ := Option.map_eq_some_iff.1 hp
  obtain ⟨b, -, rfl⟩ := Option.map_eq_some_iff.1 hq
  exact hxy

variable [Std.TransOrd κ]

theorem Sorted.insert {entries : List (κ × α)} (h : Sorted entries) (k : κ) (a : α) :
    Sorted (insert k a entries) := by
  induction entries with
  | nil => simp [Entries.insert, Sorted]
  | cons e rest ih =>
    obtain ⟨k', a'⟩ := e
    obtain ⟨hhead, hrest⟩ := List.pairwise_cons.1 h
    simp only [Entries.insert]
    split
    · rename_i hlt
      refine List.pairwise_cons.2 ⟨fun p hp => ?_, h⟩
      rcases List.mem_cons.1 hp with rfl | hp
      · exact hlt
      · exact Std.TransCmp.lt_trans hlt (hhead p hp)
    · rename_i heq
      exact List.pairwise_cons.2
        ⟨fun p hp => Std.TransCmp.lt_of_eq_of_lt heq (hhead p hp), hrest⟩
    · rename_i hgt
      refine List.pairwise_cons.2 ⟨fun p hp => ?_, ih hrest⟩
      rcases mem_insert hp with rfl | hp
      · exact Std.OrientedCmp.lt_of_gt hgt
      · exact hhead p hp

theorem Sorted.foldl_insert {entries : List (κ × α)} (h : Sorted entries)
    (pairs : List (κ × α)) :
    Sorted (pairs.foldl (fun es p => Entries.insert p.1 p.2 es) entries) := by
  induction pairs generalizing entries with
  | nil => exact h
  | cons p rest ih => exact ih (h.insert p.1 p.2)

theorem sorted_ofList (pairs : List (κ × α)) : Sorted (ofList pairs) :=
  sorted_nil.foldl_insert pairs

/-- Of two values stored at one key the later counts. -/
theorem insert_insert_self (k : κ) (a b : α) (entries : List (κ × α)) :
    insert k a (insert k b entries) = insert k a entries := by
  induction entries with
  | nil => simp [insert, Std.ReflCmp.compare_self]
  | cons e rest ih =>
    obtain ⟨k', a'⟩ := e
    cases h : compare k k' with
    | lt => simp [insert, h, Std.ReflCmp.compare_self]
    | eq => simp [insert, h, Std.ReflCmp.compare_self]
    | gt => simp [insert, h, ih]

theorem insert_comm_of_lt {k l : κ} (hkl : compare k l = .lt) (a b : α)
    (entries : List (κ × α)) :
    insert k a (insert l b entries) = insert l b (insert k a entries) := by
  have hlk : compare l k = .gt := Std.OrientedCmp.gt_of_lt hkl
  induction entries with
  | nil => simp [insert, hkl, hlk]
  | cons e rest ih =>
    obtain ⟨k', a'⟩ := e
    cases hk : compare k k' with
    | lt =>
      -- Whatever becomes of `l`, the key `k` comes first.
      cases hl : compare l k' with
      | lt => simp [insert, hkl, hlk, hk, hl]
      | eq => simp [insert, hkl, hlk, hk, hl]
      | gt => simp [insert, hlk, hk, hl]
    | eq =>
      have hl : compare l k' = .gt := Std.OrientedCmp.gt_of_lt
        (Std.TransCmp.lt_of_eq_of_lt (Std.OrientedCmp.eq_symm hk) hkl)
      simp [insert, hlk, hk, hl]
    | gt =>
      have hl : compare l k' = .gt := Std.OrientedCmp.gt_of_lt
        (Std.TransCmp.lt_trans (Std.OrientedCmp.lt_of_gt hk) hkl)
      simp [insert, hk, hl, ih]

/-- Values at different keys can be stored in either order. -/
theorem insert_comm [Std.LawfulEqOrd κ] {k l : κ} (h : k ≠ l) (a b : α)
    (entries : List (κ × α)) :
    insert k a (insert l b entries) = insert l b (insert k a entries) := by
  cases hkl : compare k l with
  | lt => exact insert_comm_of_lt hkl a b entries
  | eq => exact absurd (Std.LawfulEqCmp.compare_eq_iff_eq.1 hkl) h
  | gt => exact (insert_comm_of_lt (Std.OrientedCmp.lt_of_gt hkl) b a entries).symm

section LawfulEq

variable {κ : Type u} {α : Type v} [Ord κ] [Std.LawfulEqOrd κ]

/-- Look-up after an insertion finds the new value at its key and the old ones elsewhere. -/
theorem get?_insert [DecidableEq κ] (k k' : κ) (a : α) (entries : List (κ × α)) :
    get? k' (insert k a entries) = if k' = k then some a else get? k' entries := by
  induction entries with
  | nil => simp [insert, get?, Std.LawfulEqCmp.compare_eq_iff_eq]
  | cons e rest ih =>
    obtain ⟨k₀, a₀⟩ := e
    simp only [insert]
    split
    · simp [get?, Std.LawfulEqCmp.compare_eq_iff_eq]
    · rename_i heq
      have hk : k = k₀ := Std.LawfulEqCmp.compare_eq_iff_eq.1 heq
      subst hk
      simp only [get?, Std.LawfulEqCmp.compare_eq_iff_eq]
      split <;> rfl
    · rename_i hgt
      have hk : k ≠ k₀ := fun h => by simp [h, Std.ReflCmp.compare_self] at hgt
      simp only [get?, ih, Std.LawfulEqCmp.compare_eq_iff_eq]
      by_cases h : k' = k₀
      · simp [h, Ne.symm hk]
      · simp [h]

/-- In a sorted list an entry occurs exactly when look-up finds it. -/
theorem get?_eq_some_iff {entries : List (κ × α)} (h : Sorted entries) {k : κ} {a : α} :
    get? k entries = some a ↔ (k, a) ∈ entries := by
  induction entries with
  | nil => simp
  | cons e rest ih =>
    obtain ⟨k₀, a₀⟩ := e
    obtain ⟨hhead, hrest⟩ := List.pairwise_cons.1 h
    simp only [get?, Std.LawfulEqCmp.compare_eq_iff_eq, List.mem_cons, Prod.mk.injEq]
    by_cases hk : k = k₀
    · subst hk
      have hnot : (k, a) ∉ rest := fun hm => by
        simpa [Std.ReflCmp.compare_self] using hhead _ hm
      simp [hnot, eq_comm]
    · simp [hk, ih hrest]

theorem mem_of_get? {entries : List (κ × α)} {k : κ} {a : α} (h : get? k entries = some a) :
    (k, a) ∈ entries := by
  induction entries with
  | nil => cases h
  | cons e rest ih =>
    rw [get?] at h
    split at h
    case isTrue hk =>
      rw [Std.LawfulEqCmp.compare_eq_iff_eq.1 hk, ← Option.some.inj h]
      exact List.mem_cons_self
    case isFalse => exact List.mem_cons_of_mem _ (ih h)

theorem get?_eq_none_iff {entries : List (κ × α)} {k : κ} :
    get? k entries = none ↔ ∀ p ∈ entries, k ≠ p.1 := by
  induction entries with
  | nil => simp
  | cons e rest ih =>
    by_cases hk : k = e.1 <;>
      simp [get?, Std.LawfulEqCmp.compare_eq_iff_eq, hk, ih]

theorem get?_ne_none_iff {entries : List (κ × α)} {k : κ} :
    get? k entries ≠ none ↔ k ∈ entries.map (·.1) := by
  rw [ne_eq, get?_eq_none_iff, List.mem_map]
  constructor
  · intro h
    refine Classical.byContradiction fun hnot => h fun p hp hk => ?_
    exact hnot ⟨p, hp, hk.symm⟩
  · rintro ⟨p, hp, rfl⟩ h
    exact h p hp rfl

/-- Of sorted pairs that are inserted, each stands for itself and hides what was there. -/
theorem get?_foldl_insert [DecidableEq κ] {pairs : List (κ × α)} (h : Sorted pairs)
    (entries : List (κ × α)) (k : κ) :
    get? k (pairs.foldl (fun es p => insert p.1 p.2 es) entries) =
      (get? k pairs).or (get? k entries) := by
  induction pairs generalizing entries with
  | nil => simp
  | cons p rest ih =>
    obtain ⟨hhead, htail⟩ := List.pairwise_cons.1 h
    simp only [List.foldl_cons, get?, Std.LawfulEqCmp.compare_eq_iff_eq]
    rw [ih htail]
    by_cases hk : k = p.1
    · have hnone : get? k rest = none :=
        get?_eq_none_iff.2 fun q hq e => by
          simpa [← e, hk, Std.ReflCmp.compare_self] using hhead q hq
      simp [hk ▸ hnone, get?_insert, hk]
    · simp [get?_insert, hk]

theorem get?_ofList [DecidableEq κ] {pairs : List (κ × α)} (h : Sorted pairs) (k : κ) :
    get? k (ofList pairs) = get? k pairs := by
  simp [ofList, get?_foldl_insert h]

/-- Values can be changed or dropped key by key, and look-up follows. -/
theorem get?_filterMap {β : Type v} (f : κ → α → Option β) {entries : List (κ × α)}
    (h : Sorted entries) (k : κ) :
    get? k (entries.filterMap fun p => (f p.1 p.2).map (p.1, ·)) = (get? k entries).bind (f k) := by
  induction entries with
  | nil => rfl
  | cons p rest ih =>
    obtain ⟨hhead, htail⟩ := List.pairwise_cons.1 h
    by_cases hk : k = p.1
    · subst hk
      have hnone : get? p.1 rest = none :=
        get?_eq_none_iff.2 fun q hq e => by
          simpa [← e, Std.ReflCmp.compare_self] using hhead q hq
      cases hf : f p.1 p.2 <;> simp [hf, get?, ih htail, hnone]
    · cases hf : f p.1 p.2 <;>
        simp [hf, get?, ih htail, Std.LawfulEqCmp.compare_eq_iff_eq, hk]

end LawfulEq

/-- Two sorted lists with the same look-up are the same list. -/
theorem Sorted.ext [Std.LawfulEqOrd κ] {xs ys : List (κ × α)} (hx : Sorted xs) (hy : Sorted ys)
    (h : ∀ k, get? k xs = get? k ys) : xs = ys := by
  refine eq_of_pairwise_of_mem_iff Std.OrientedCmp.not_lt_of_lt hx hy fun p => ?_
  rw [← get?_eq_some_iff hx, ← get?_eq_some_iff hy, h]

end Entries
end ResourceQuery
