import ResourceQuery.FieldList
import ResourceQuery.Proofs.Except

/-!
# Cutting at commas outside brackets

While a text is read from left to right, the number of open brackets goes up and down.  A field list
is cut at the commas where it is zero.  So the pieces are exactly the texts that begin and end with
no bracket open and have no comma where none is open, and a text with commas between such pieces is
cut into them again.
-/

namespace ResourceQuery
namespace FieldList

/-- A text is read with some brackets open at its beginning and some at its end: no bracket is
closed that is not open, and no comma stands where none is open. -/
inductive Runs : Nat → List Char → Nat → Prop where
  | nil (depth : Nat) : Runs depth [] depth
  | opening {depth last : Nat} {cs : List Char} (h : Runs (depth + 1) cs last) :
      Runs depth ('[' :: cs) last
  | closing {depth last : Nat} {cs : List Char} (h : Runs depth cs last) :
      Runs (depth + 1) (']' :: cs) last
  | other {depth last : Nat} {c : Char} {cs : List Char} (hopen : c ≠ '[') (hclose : c ≠ ']')
      (hcomma : c = ',' → depth ≠ 0) (h : Runs depth cs last) : Runs depth (c :: cs) last

/-- A character that neither opens nor closes a bracket and does not separate. -/
def IsPlain (c : Char) : Prop := c ≠ '[' ∧ c ≠ ']' ∧ c ≠ ','

instance : DecidablePred IsPlain := fun _ => inferInstanceAs (Decidable (_ ∧ _ ∧ _))

variable {depth last : Nat} {c : Char} {cs ds : List Char} {pieces : List (List Char)}

namespace Runs

theorem append {middle : Nat} (h : Runs depth cs middle) (h' : Runs middle ds last) :
    Runs depth (cs ++ ds) last := by
  induction h with
  | nil => exact h'
  | opening _ ih => exact .opening (ih h')
  | closing _ ih => exact .closing (ih h')
  | other hopen hclose hcomma _ ih => exact .other hopen hclose hcomma (ih h')

theorem split (h : Runs depth (cs ++ ds) last) :
    ∃ middle, Runs depth cs middle ∧ Runs middle ds last := by
  induction cs generalizing depth with
  | nil => exact ⟨depth, .nil depth, h⟩
  | cons c cs ih =>
    cases h with
    | opening h =>
      obtain ⟨middle, hfront, hback⟩ := ih h
      exact ⟨middle, .opening hfront, hback⟩
    | closing h =>
      obtain ⟨middle, hfront, hback⟩ := ih h
      exact ⟨middle, .closing hfront, hback⟩
    | other hopen hclose hcomma h =>
      obtain ⟨middle, hfront, hback⟩ := ih h
      exact ⟨middle, .other hopen hclose hcomma hfront, hback⟩

/-- Without brackets the depth stays the same. -/
theorem of_free (hfree : ∀ c ∈ cs, c ≠ '[' ∧ c ≠ ']') (hcomma : ',' ∈ cs → depth ≠ 0) :
    Runs depth cs depth := by
  induction cs with
  | nil => exact .nil depth
  | cons c cs ih =>
    obtain ⟨hc, hcs⟩ := List.forall_mem_cons.1 hfree
    exact .other hc.1 hc.2 (fun heq => hcomma (heq ▸ List.mem_cons_self))
      (ih hcs fun hmem => hcomma (List.mem_cons_of_mem _ hmem))

theorem of_plain (hplain : ∀ c ∈ cs, IsPlain c) : Runs depth cs depth :=
  of_free (fun c hc => ⟨(hplain c hc).1, (hplain c hc).2.1⟩)
    fun hmem => absurd rfl (hplain ',' hmem).2.2

/-- Outside brackets nothing but plain characters is read before a bracket is opened. -/
theorem plain (h : Runs 0 cs last) (hfree : '[' ∉ cs) : ∀ c ∈ cs, IsPlain c := by
  induction cs with
  | nil => nofun
  | cons c cs ih =>
    cases h with
    | opening h => exact absurd List.mem_cons_self hfree
    | other hopen hclose hcomma h =>
      have hplain : IsPlain c := ⟨hopen, hclose, fun heq => hcomma heq rfl⟩
      exact List.forall_mem_cons.2 ⟨hplain, ih h fun hmem => hfree (List.mem_cons_of_mem _ hmem)⟩

/-- Plain characters leave the depth as it is. -/
theorem last_eq (h : Runs depth cs last) (hplain : ∀ c ∈ cs, IsPlain c) : last = depth := by
  induction h with
  | nil => rfl
  | opening => exact absurd rfl (hplain '[' List.mem_cons_self).1
  | closing => exact absurd rfl (hplain ']' List.mem_cons_self).2.1
  | other _ _ _ _ ih => exact ih fun c hc => hplain c (List.mem_cons_of_mem _ hc)

end Runs

/-! ## Cutting -/

theorem cut_other (hopen : c ≠ '[') (hclose : c ≠ ']') : cut depth (c :: cs) =
    if c = ',' ∧ depth = 0 then (cut depth cs).map ([] :: ·)
    else (cut depth cs).map (prepend c) := by
  rw [cut]
  · exact hopen
  · exact hclose

theorem foldr_prepend_cons (cs piece : List Char) (pieces : List (List Char)) :
    cs.foldr prepend (piece :: pieces) = (cs ++ piece) :: pieces := by
  induction cs with
  | nil => rfl
  | cons c cs ih => rw [List.foldr_cons, ih, prepend, List.cons_append]

/-- What is read without a cut stands in front of the first piece of what follows. -/
theorem Runs.cut_append (h : Runs depth cs last) (ds : List Char) :
    cut depth (cs ++ ds) = (cut last ds).map fun pieces => cs.foldr prepend pieces := by
  have hmap (x : Except Fault (List (List Char))) (c : Char) (cs : List Char) :
      (x.map fun pieces => cs.foldr prepend pieces).map (prepend c) =
        x.map fun pieces => (c :: cs).foldr prepend pieces := by
    cases x with
    | error fault => rfl
    | ok pieces => rfl
  induction h with
  | nil depth =>
    rw [List.nil_append]
    cases cut depth ds with
    | error fault => rfl
    | ok pieces => rfl
  | opening _ ih => rw [List.cons_append, cut, ih, hmap]
  | closing _ ih =>
    rw [List.cons_append, cut, if_neg (Nat.succ_ne_zero _), Nat.add_sub_cancel, ih, hmap]
  | other hopen hclose hcomma _ ih =>
    rw [List.cons_append, cut_other hopen hclose, if_neg fun h => hcomma h.1 h.2, ih, hmap]

theorem join_cons_cons (c : Char) (piece : List Char) (pieces : List (List Char)) :
    Split.join ',' ((c :: piece) :: pieces) = c :: Split.join ',' (piece :: pieces) := by
  cases pieces with
  | nil => rfl
  | cons next rest => rfl

/-- Cutting loses nothing, and with no bracket open every piece after the first begins. -/
theorem runs_of_cut (h : cut depth cs = .ok pieces) : ∃ first rest, pieces = first :: rest ∧
    Runs depth first 0 ∧ (∀ piece ∈ rest, Runs 0 piece 0) ∧
      cs = Split.join ',' (first :: rest) := by
  induction cs generalizing depth pieces with
  | nil =>
    simp only [cut] at h
    split at h
    · rename_i hdepth
      subst hdepth
      exact ⟨[], [], (Except.ok.inj h).symm, .nil 0, nofun, rfl⟩
    · cases h
  | cons c cs ih =>
    by_cases hopen : c = '['
    · subst hopen
      rw [cut, map_eq_ok_iff] at h
      obtain ⟨_, hcut, rfl⟩ := h
      obtain ⟨first, rest, rfl, hfirst, hrest, rfl⟩ := ih hcut
      exact ⟨_, rest, rfl, .opening hfirst, hrest, (join_cons_cons _ _ _).symm⟩
    by_cases hclose : c = ']'
    · subst hclose
      rw [cut] at h
      split at h
      · cases h
      · rename_i hdepth
        obtain ⟨depth, rfl⟩ := Nat.exists_eq_succ_of_ne_zero hdepth
        obtain ⟨_, hcut, rfl⟩ := map_eq_ok_iff.1 h
        obtain ⟨first, rest, rfl, hfirst, hrest, rfl⟩ := ih hcut
        exact ⟨_, rest, rfl, .closing hfirst, hrest, (join_cons_cons _ _ _).symm⟩
    rw [cut_other hopen hclose] at h
    split at h
    · rename_i hcomma
      obtain ⟨rfl, rfl⟩ := hcomma
      obtain ⟨_, hcut, rfl⟩ := map_eq_ok_iff.1 h
      obtain ⟨first, rest, rfl, hfirst, hrest, rfl⟩ := ih hcut
      exact ⟨[], first :: rest, rfl, .nil 0, List.forall_mem_cons.2 ⟨hfirst, hrest⟩, rfl⟩
    · rename_i hcomma
      obtain ⟨_, hcut, rfl⟩ := map_eq_ok_iff.1 h
      obtain ⟨first, rest, rfl, hfirst, hrest, rfl⟩ := ih hcut
      exact ⟨_, rest, rfl, .other hopen hclose (fun heq hdepth => hcomma ⟨heq, hdepth⟩) hfirst,
        hrest, (join_cons_cons _ _ _).symm⟩

theorem cut_join {first : List Char} (hfirst : Runs 0 first 0)
    (hpieces : ∀ piece ∈ pieces, Runs 0 piece 0) :
    cut 0 (Split.join ',' (first :: pieces)) = .ok (first :: pieces) := by
  induction pieces generalizing first with
  | nil =>
    have hcut := hfirst.cut_append []
    rw [List.append_nil] at hcut
    rw [Split.join, hcut]
    exact congrArg Except.ok ((foldr_prepend_cons first [] []).trans (by rw [List.append_nil]))
  | cons next rest ih =>
    obtain ⟨hnext, hrest⟩ := List.forall_mem_cons.1 hpieces
    have hjoin : Split.join ',' (first :: next :: rest) =
        first ++ ',' :: Split.join ',' (next :: rest) := rfl
    rw [hjoin, hfirst.cut_append, cut_other (by decide) (by decide), if_pos ⟨rfl, rfl⟩,
      ih hnext hrest]
    exact congrArg Except.ok ((foldr_prepend_cons first [] _).trans (by rw [List.append_nil]))

/-- A text is cut into pieces exactly when it is these pieces with commas between them, and each
of them is read from no open bracket to none. -/
theorem cut_eq_ok_iff : cut 0 cs = .ok pieces ↔
    pieces ≠ [] ∧ (∀ piece ∈ pieces, Runs 0 piece 0) ∧ cs = Split.join ',' pieces := by
  constructor
  · intro h
    obtain ⟨first, rest, rfl, hfirst, hrest, hjoin⟩ := runs_of_cut h
    exact ⟨List.cons_ne_nil first rest, List.forall_mem_cons.2 ⟨hfirst, hrest⟩, hjoin⟩
  · rintro ⟨hne, hruns, rfl⟩
    obtain ⟨first, rest, rfl⟩ := List.exists_cons_of_ne_nil hne
    obtain ⟨hfirst, hrest⟩ := List.forall_mem_cons.1 hruns
    exact cut_join hfirst hrest

end FieldList
end ResourceQuery
