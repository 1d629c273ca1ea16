/-!
# Splitting text at a separator

Text is cut at the first, at the last or at every occurrence of a separator.  The statements
say exactly which cut that is: nothing is lost, and the part that could hold another
separator is free of it.
-/

namespace ResourceQuery
namespace Split

variable {α : Type} [DecidableEq α]

/-- Cut at the first separator. -/
def first? (sep : α) : List α → Option (List α × List α)
  | [] => none
  | c :: cs =>
    if c = sep then some ([], cs)
    else (first? sep cs).map fun (front, back) => (c :: front, back)

/-- Cut at the last separator. -/
def last? (sep : α) : List α → Option (List α × List α)
  | [] => none
  | c :: cs =>
    match last? sep cs with
    | some (front, back) => some (c :: front, back)
    | none => if c = sep then some ([], cs) else none

/-- Cut at every separator; without a separator the text is the only piece. -/
def all (sep : α) : List α → List (List α)
  | [] => [[]]
  | c :: cs =>
    if c = sep then [] :: all sep cs
    else
      match all sep cs with
      | [] => [[c]]
      | piece :: pieces => (c :: piece) :: pieces

/-- Put pieces together with separators between them. -/
def join (sep : α) : List (List α) → List α
  | [] => []
  | [piece] => piece
  | piece :: pieces => piece ++ sep :: join sep pieces

theorem first?_eq_some_iff {sep : α} {cs front back : List α} :
    first? sep cs = some (front, back) ↔ cs = front ++ sep :: back ∧ sep ∉ front := by
  induction cs generalizing front with
  | nil => simp [first?]
  | cons c cs ih =>
    simp only [first?]
    by_cases hc : c = sep
    · subst hc
      simp only [↓reduceIte, Option.some.injEq, Prod.mk.injEq]
      constructor
      · rintro ⟨rfl, rfl⟩
        simp
      · rintro ⟨h, hn⟩
        cases front with
        | nil => simpa using h
        | cons x front => simp_all
    · simp only [if_neg hc, Option.map_eq_some_iff, Prod.mk.injEq, Prod.exists]
      constructor
      · rintro ⟨f, b, h, rfl, rfl⟩
        obtain ⟨rfl, hn⟩ := ih.1 h
        simp [hn, Ne.symm hc]
      · rintro ⟨h, hn⟩
        cases front with
        | nil => exact absurd (by simpa using h) (by simp [hc])
        | cons x front =>
          obtain ⟨rfl, rfl⟩ : c = x ∧ cs = front ++ sep :: back := by simpa using h
          exact ⟨front, back, ih.2 ⟨rfl, by simp_all⟩, rfl, rfl⟩

theorem first?_eq_none_iff {sep : α} {cs : List α} : first? sep cs = none ↔ sep ∉ cs := by
  induction cs with
  | nil => simp [first?]
  | cons c cs ih =>
    by_cases hc : c = sep
    · simp [first?, hc]
    · simp [first?, hc, ih, Ne.symm hc]

theorem last?_eq_none_iff {sep : α} {cs : List α} : last? sep cs = none ↔ sep ∉ cs := by
  induction cs with
  | nil => simp [last?]
  | cons c cs ih =>
    simp only [last?, List.mem_cons, not_or, ← ih]
    cases h : last? sep cs <;> simp [eq_comm]

theorem last?_eq_some_iff {sep : α} {cs front back : List α} :
    last? sep cs = some (front, back) ↔ cs = front ++ sep :: back ∧ sep ∉ back := by
  constructor
  · intro h
    induction cs generalizing front with
    | nil => simp [last?] at h
    | cons c cs ih =>
      simp only [last?] at h
      split at h
      · rename_i f b hcs
        obtain ⟨rfl, rfl⟩ : c :: f = front ∧ b = back := by simpa using h
        obtain ⟨rfl, hb⟩ := ih hcs
        exact ⟨rfl, hb⟩
      · rename_i hcs
        split at h
        · rename_i hc
          obtain ⟨rfl, rfl⟩ : [] = front ∧ cs = back := by simpa using h
          exact ⟨by simp [hc], last?_eq_none_iff.1 hcs⟩
        · simp at h
  · rintro ⟨rfl, hb⟩
    induction front with
    | nil => simp [last?, last?_eq_none_iff.2 hb]
    | cons x front ih => simp [last?, ih]

theorem all_ne_nil (sep : α) (cs : List α) : all sep cs ≠ [] := by
  cases cs with
  | nil => simp [all]
  | cons c cs =>
    simp only [all]
    split
    · simp
    · split <;> simp

theorem join_all (sep : α) (cs : List α) : join sep (all sep cs) = cs := by
  induction cs with
  | nil => rfl
  | cons c cs ih =>
    simp only [all]
    split
    · rename_i hc
      cases h : all sep cs with
      | nil => exact absurd h (all_ne_nil sep cs)
      | cons p ps => rw [h] at ih; simp [join, ih, hc]
    · cases h : all sep cs with
      | nil => exact absurd h (all_ne_nil sep cs)
      | cons p ps =>
        rw [h] at ih
        cases ps <;> simp_all [join]

theorem not_mem_of_mem_all {sep : α} {cs piece : List α} (h : piece ∈ all sep cs) :
    sep ∉ piece := by
  induction cs generalizing piece with
  | nil => simp_all [all]
  | cons c cs ih =>
    simp only [all] at h
    split at h
    · rcases List.mem_cons.1 h with rfl | h
      · simp
      · exact ih h
    · rename_i hc
      cases hcs : all sep cs with
      | nil => exact absurd hcs (all_ne_nil sep cs)
      | cons p ps =>
        rw [hcs] at h ih
        rcases List.mem_cons.1 h with rfl | h
        · have := ih (List.mem_cons_self (a := p))
          simp [this, Ne.symm hc]
        · exact ih (List.mem_cons_of_mem _ h)

theorem all_eq_singleton {sep : α} {cs : List α} (h : sep ∉ cs) : all sep cs = [cs] := by
  induction cs with
  | nil => rfl
  | cons c cs ih => simp_all [all, Ne.symm]

/-- A separator ends a piece wherever it stands. -/
theorem all_append (sep : α) (front back : List α) :
    all sep (front ++ sep :: back) = all sep front ++ all sep back := by
  induction front with
  | nil => simp [all]
  | cons c cs ih =>
    by_cases hc : c = sep
    · simp [all, hc, ih]
    · obtain ⟨p, ps, hcs⟩ := List.exists_cons_of_ne_nil (all_ne_nil sep cs)
      simp [all, hc, ih, hcs]

/-- Pieces that are free of the separator come back when their join is cut. -/
theorem all_join {sep : α} {pieces : List (List α)} (hne : pieces ≠ [])
    (hfree : ∀ piece ∈ pieces, sep ∉ piece) : all sep (join sep pieces) = pieces := by
  induction pieces with
  | nil => exact absurd rfl hne
  | cons p ps ih =>
    cases ps with
    | nil => exact all_eq_singleton (hfree p List.mem_cons_self)
    | cons q qs =>
      have hrest : all sep (join sep (q :: qs)) = q :: qs :=
        ih (by simp) fun x hx => hfree x (List.mem_cons_of_mem _ hx)
      have hjoin : join sep (p :: q :: qs) = p ++ sep :: join sep (q :: qs) := rfl
      rw [hjoin, all_append, all_eq_singleton (hfree p List.mem_cons_self), hrest]
      rfl

end Split
end ResourceQuery
