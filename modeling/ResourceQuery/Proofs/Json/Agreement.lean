import ResourceQuery.Json.Text

/-!
# Agreement of values

Agreement of values is an equivalence, although it is coarser than equality: the two zeros
agree.  Values that agree can still have different texts; `Json.Alike` asks for both, and alike
values cannot be told apart by any comparison with a third value.
-/

namespace ResourceQuery

theorem Number.agrees_refl (m : Number) : m.agrees m = true := by
  cases m <;> simp [Number.agrees, Binary64.sameValue]

theorem Number.agrees_congr {m n : Number} (h : m.agrees n = true) (k : Number) :
    m.agrees k = n.agrees k := by
  cases m <;> cases n <;> cases k <;> simp_all [Number.agrees, Binary64.sameValue]

namespace Json

mutual

theorem agrees_refl : ∀ x : Json, x.agrees x = true
  | .null => rfl
  | .bool _ => by simp [agrees]
  | .number n => by simp [agrees, n.agrees_refl]
  | .string _ => by simp [agrees]
  | .array xs => by simpa [agrees] using agreesItems_refl xs
  | .object xs => by simpa [agrees] using agreesFields_refl xs

theorem agreesItems_refl : ∀ xs : List Json, agreesItems xs xs = true
  | [] => rfl
  | x :: xs => by simp [agreesItems, agrees_refl x, agreesItems_refl xs]

theorem agreesFields_refl : ∀ xs : List (String × Json), agreesFields xs xs = true
  | [] => rfl
  | (_, x) :: xs => by simp [agreesFields, agrees_refl x, agreesFields_refl xs]

end

mutual

/-- Agreeing values agree with the same third values; with reflexivity this gives symmetry and
transitivity at once. -/
theorem agrees_congr : ∀ {x y : Json}, x.agrees y = true → ∀ z, x.agrees z = y.agrees z
  | .null, y, h, z => by
    cases y with
    | null => rfl
    | _ => simp [agrees] at h
  | .bool _, y, h, z => by cases y <;> cases z <;> simp_all [agrees]
  | .string _, y, h, z => by cases y <;> cases z <;> simp_all [agrees]
  | .number m, y, h, z => by
    cases y with
    | number n =>
      have hn : m.agrees n = true := by simpa [agrees] using h
      cases z <;> simp [agrees, Number.agrees_congr hn]
    | _ => simp [agrees] at h
  | .array xs, y, h, z => by
    cases y with
    | array ys =>
      have hn : agreesItems xs ys = true := by simpa [agrees] using h
      cases z <;> simp [agrees, agreesItems_congr hn]
    | _ => simp [agrees] at h
  | .object xs, y, h, z => by
    cases y with
    | object ys =>
      have hn : agreesFields xs ys = true := by simpa [agrees] using h
      cases z <;> simp [agrees, agreesFields_congr hn]
    | _ => simp [agrees] at h

theorem agreesItems_congr : ∀ {xs ys : List Json}, agreesItems xs ys = true →
    ∀ zs, agreesItems xs zs = agreesItems ys zs
  | [], ys, h, zs => by cases ys <;> simp_all [agreesItems]
  | x :: xs, ys, h, zs => by
    cases ys with
    | nil => simp [agreesItems] at h
    | cons y ys =>
      obtain ⟨hx, hxs⟩ : x.agrees y = true ∧ agreesItems xs ys = true := by
        simpa [agreesItems] using h
      cases zs <;> simp [agreesItems, agrees_congr hx, agreesItems_congr hxs]

theorem agreesFields_congr : ∀ {xs ys : List (String × Json)}, agreesFields xs ys = true →
    ∀ zs, agreesFields xs zs = agreesFields ys zs
  | [], ys, h, zs => by cases ys <;> simp_all [agreesFields]
  | (k, x) :: xs, ys, h, zs => by
    cases ys with
    | nil => simp [agreesFields] at h
    | cons y ys =>
      obtain ⟨l, y⟩ := y
      obtain ⟨⟨rfl, hx⟩, hxs⟩ : (k = l ∧ x.agrees y = true) ∧ agreesFields xs ys = true := by
        simpa [agreesFields] using h
      cases zs <;> simp [agreesFields, agrees_congr hx, agreesFields_congr hxs]

end

theorem agrees_comm (x y : Json) : x.agrees y = y.agrees x := by
  rw [Bool.eq_iff_iff]
  exact ⟨fun h => (agrees_congr h x).symm.trans (agrees_refl x),
    fun h => (agrees_congr h y).symm.trans (agrees_refl y)⟩

/-- Agreement with a text is equality with it. -/
theorem agrees_string {x : Json} {s : String} : x.agrees (.string s) = true ↔ x = .string s := by
  cases x <;> simp [agrees]

/-- Two values that a hash table takes for one: they agree and have the same text. -/
def Alike (x y : Json) : Prop := x.agrees y = true ∧ x.text = y.text

instance (x y : Json) : Decidable (x.Alike y) := inferInstanceAs (Decidable (_ ∧ _))

theorem Alike.refl (x : Json) : x.Alike x := ⟨x.agrees_refl, rfl⟩

/-- Alike values count as the same key. -/
theorem Alike.keyText_eq {x y : Json} (h : x.Alike y) : x.keyText = y.keyText := by
  obtain ⟨ha, ht⟩ := h
  cases x <;> cases y <;> simp_all [agrees, keyText]

end Json
end ResourceQuery
