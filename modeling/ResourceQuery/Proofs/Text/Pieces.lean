import Mathlib.Data.List.Infix
import ResourceQuery.Text.Split

/-!
# Pieces of a text

The pieces into which a text is cut and the texts that are put together from pieces: what the first
pieces of a text say about it, when a piece is empty, and that every piece is a part of the whole.
-/

namespace ResourceQuery
namespace Split

variable {α : Type} {sep : α}

theorem join_eq_intercalate (sep : α) (pieces : List (List α)) :
    join sep pieces = [sep].intercalate pieces := by
  induction pieces with
  | nil => rfl
  | cons piece pieces ih =>
    cases pieces with
    | nil => simp [join]
    | cons next rest => simp [join, ih]

theorem join_cons (piece : List α) {rest : List (List α)} (hrest : rest ≠ []) :
    join sep (piece :: rest) = piece ++ sep :: join sep rest := by
  cases rest with
  | nil => exact absurd rfl hrest
  | cons next rest => rfl

theorem join_append {xs ys : List (List α)} (hxs : xs ≠ []) (hys : ys ≠ []) :
    join sep (xs ++ ys) = join sep xs ++ sep :: join sep ys := by
  induction xs with
  | nil => exact absurd rfl hxs
  | cons x xs ih =>
    by_cases hnil : xs = []
    · rw [hnil]
      exact join_cons x hys
    · rw [List.cons_append, join_cons x (List.append_ne_nil_of_left_ne_nil hnil ys), ih hnil,
        join_cons x hnil, List.append_assoc]
      rfl

theorem infix_join_of_mem {piece : List α} {pieces : List (List α)} (h : piece ∈ pieces) :
    piece <:+: join sep pieces := by
  induction pieces with
  | nil => cases h
  | cons first rest ih =>
    by_cases hnil : rest = []
    · rw [hnil, List.mem_singleton] at h
      rw [h, hnil]
      exact List.infix_refl first
    · rw [join_cons first hnil]
      rcases List.mem_cons.1 h with rfl | h
      · exact (List.prefix_append _ _).isInfix
      · exact (ih h).trans ((List.suffix_cons _ _).trans (List.suffix_append _ _)).isInfix

variable [DecidableEq α]

/-- The pieces of a list begin with those of a front part that is the whole or ends where the list
is cut. -/
theorem all_prefix_all_iff {front cs : List α} :
    all sep front <+: all sep cs ↔ cs = front ∨ front ++ [sep] <+: cs := by
  constructor
  · rintro ⟨rest, hrest⟩
    have hcs : join sep (all sep front ++ rest) = cs := by rw [hrest, join_all]
    by_cases hnil : rest = []
    · rw [hnil, List.append_nil, join_all] at hcs
      exact .inl hcs.symm
    · rw [join_append (all_ne_nil sep front) hnil, join_all] at hcs
      exact .inr ⟨join sep rest, by rw [← hcs, List.append_assoc]; rfl⟩
  · rintro (rfl | ⟨back, rfl⟩)
    · exact List.prefix_rfl
    · rw [List.append_assoc, List.singleton_append, all_append]
      exact List.prefix_append _ _

/-- There is an empty piece exactly when a separator stands at an end of the text or next to
another one, or the text is empty. -/
theorem nil_mem_all_iff {cs : List α} : [] ∈ all sep cs ↔
    cs = [] ∨ cs.head? = some sep ∨ cs.getLast? = some sep ∨ [sep, sep] <:+: cs := by
  constructor
  · intro h
    obtain ⟨front, back, hall⟩ := List.append_of_mem h
    have hcs : join sep (front ++ [] :: back) = cs := by rw [← hall, join_all]
    rw [← hcs]
    -- There are separators around the empty piece, except where the text begins or ends.
    by_cases hfront : front = []
    · subst hfront
      cases back with
      | nil => exact .inl rfl
      | cons next rest => exact .inr (.inl rfl)
    · rw [join_append hfront (List.cons_ne_nil _ _)]
      cases back with
      | nil => exact .inr (.inr (.inl List.getLast?_concat))
      | cons next rest =>
        have hmiddle : join sep front ++ [sep, sep] ++ join sep (next :: rest) =
            join sep front ++ sep :: join sep ([] :: next :: rest) := by
          rw [List.append_assoc]
          rfl
        exact .inr (.inr (.inr ⟨_, _, hmiddle⟩))
  · rintro (rfl | hhead | hlast | ⟨front, back, rfl⟩)
    · exact List.mem_singleton_self []
    · obtain ⟨rest, rfl⟩ := List.head?_eq_some_iff.1 hhead
      rw [← List.nil_append (sep :: rest), all_append]
      exact List.mem_append_left _ (List.mem_singleton_self [])
    · obtain ⟨front, rfl⟩ := List.getLast?_eq_some_iff.1 hlast
      rw [all_append]
      exact List.mem_append_right _ (List.mem_singleton_self [])
    · have hpieces : all sep (front ++ [sep, sep] ++ back) =
          all sep front ++ [] :: all sep back := by
        rw [List.append_assoc, List.cons_append, all_append, List.singleton_append,
          ← List.nil_append (sep :: back), all_append]
        rfl
      rw [hpieces]
      exact List.mem_append_right _ List.mem_cons_self

end Split
end ResourceQuery
