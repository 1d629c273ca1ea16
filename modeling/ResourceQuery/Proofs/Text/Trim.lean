import ResourceQuery.Text.Blank

/-!
# Texts without the white space at their ends

Trimming takes white space away from both ends of a text until none is left there.  There is only
one text that can be left.
-/

namespace ResourceQuery

/-- A text without the white space at its ends: white space stands before and after it, and it
neither begins nor ends with white space. -/
structure Trims (cs field : List Char) : Prop where
  around : ∃ front back, cs = front ++ field ++ back ∧
    (∀ c ∈ front, isBlank c = true) ∧ ∀ c ∈ back, isBlank c = true
  head : ∀ c ∈ field.head?, isBlank c = false
  last : ∀ c ∈ field.getLast?, isBlank c = false

variable {cs field : List Char}

theorem dropWhile_blank_append {front : List Char} (hfront : ∀ c ∈ front, isBlank c = true)
    (hhead : ∀ c ∈ cs.head?, isBlank c = false) : (front ++ cs).dropWhile isBlank = cs := by
  rw [List.dropWhile_append_of_pos hfront]
  cases cs with
  | nil => rfl
  | cons c cs => rw [List.dropWhile_cons_of_neg (by simp [hhead c rfl])]

theorem blank_of_mem_takeWhile {c : Char} (h : c ∈ cs.takeWhile isBlank) : isBlank c = true :=
  List.all_eq_true.1 (List.all_takeWhile ..) c h

theorem not_blank_of_head?_dropWhile {c : Char} (h : c ∈ (cs.dropWhile isBlank).head?) :
    isBlank c = false := by
  have hhead := List.head?_dropWhile_not isBlank cs
  rw [Option.mem_def.1 h] at hhead
  exact hhead

theorem trims_trim (cs : List Char) : Trims cs (trim cs) := by
  have hfront : cs = cs.takeWhile isBlank ++ cs.dropWhile isBlank :=
    List.takeWhile_append_dropWhile.symm
  have hback : cs.dropWhile isBlank =
      trim cs ++ ((cs.dropWhile isBlank).reverse.takeWhile isBlank).reverse := by
    rw [trim, ← List.reverse_append, List.takeWhile_append_dropWhile, List.reverse_reverse]
  refine ⟨⟨cs.takeWhile isBlank, ((cs.dropWhile isBlank).reverse.takeWhile isBlank).reverse, ?_,
    fun c => blank_of_mem_takeWhile, fun c hc => ?_⟩, fun c hc => ?_, fun c hc => ?_⟩
  · rw [List.append_assoc, ← hback, ← hfront]
  · exact blank_of_mem_takeWhile (List.mem_reverse.1 hc)
  · -- The text begins as it does when it is trimmed at the front alone.
    have hbegins : c ∈ (cs.dropWhile isBlank).head? := by
      rw [hback, List.head?_append, Option.mem_def.1 hc]
      rfl
    exact not_blank_of_head?_dropWhile hbegins
  · rw [trim, List.getLast?_reverse] at hc
    exact not_blank_of_head?_dropWhile hc

theorem trim_of_blank (h : ∀ c ∈ cs, isBlank c = true) : trim cs = [] := by
  have hnone : (cs ++ []).dropWhile isBlank = [] := dropWhile_blank_append h nofun
  rw [List.append_nil] at hnone
  rw [trim, hnone]
  rfl

/-- Trimming leaves the one text that is without the white space at its ends. -/
theorem trim_eq_iff : trim cs = field ↔ Trims cs field := by
  constructor
  · rintro rfl
    exact trims_trim cs
  · rintro ⟨⟨front, back, rfl, hfront, hback⟩, hhead, hlast⟩
    cases field with
    | nil =>
      refine trim_of_blank fun c hc => ?_
      rw [List.append_nil] at hc
      exact (List.mem_append.1 hc).elim (hfront c) (hback c)
    | cons c field =>
      have hstart : (front ++ (c :: field ++ back)).dropWhile isBlank = c :: field ++ back :=
        dropWhile_blank_append hfront hhead
      have hend : (back.reverse ++ (c :: field).reverse).dropWhile isBlank =
          (c :: field).reverse := by
        refine dropWhile_blank_append (fun b hb => hback b (List.mem_reverse.1 hb)) ?_
        rw [List.head?_reverse]
        exact hlast
      rw [trim, List.append_assoc, hstart, List.reverse_append, hend, List.reverse_reverse]

end ResourceQuery
