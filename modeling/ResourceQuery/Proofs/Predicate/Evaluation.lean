import ResourceQuery.Predicate.Holds
import ResourceQuery.Proofs.Json.Agreement

/-!
# Evaluation of predicates

What a predicate says about a row depends only on the comparisons with the properties that it
mentions.  So rows with alike values satisfy the same predicates, and so do rows that share the
mentioned properties; and predicates that a hash table takes for one are satisfied by the same
rows.
-/

namespace ResourceQuery
namespace Predicate

/-! ## One comparison -/

theorem valueMatches_congr {a b : Json} (h : a.Alike b) (e : Json) :
    valueMatches a e = valueMatches b e := by
  simp only [valueMatches, h.keyText_eq, Json.agrees_congr h.1]

theorem valueMatches_congr_right {e e' : Json} (h : e.Alike e') (a : Json) :
    valueMatches a e = valueMatches a e' := by
  simp only [valueMatches, h.keyText_eq, Json.agrees_comm a, Json.agrees_congr h.1]

/-- A value matches a text when the text is its key. -/
theorem valueMatches_string {a : Json} {key : String} :
    valueMatches a (.string key) = true ↔ a.keyText = some key := by
  cases h : a.keyText with
  | none => simp [valueMatches, h]
  | some actual =>
    simp only [valueMatches, h, Bool.or_eq_true, Json.agrees_string]
    constructor
    · rintro (rfl | hkey)
      · exact h.symm
      · have hkey' : some key = some actual := eq_of_beq hkey
        exact hkey'.symm
    · intro hkey
      exact .inr (by simp [Json.keyText, hkey])

theorem holds_equals_string {r : Resource} {id : PropertyId} {key : String} :
    (equals id (.string key)).holds r = true ↔ r.key? id = some key := by
  cases h : r.value? id <;> simp [holds, Resource.key?, h, valueMatches_string]

/-! ## Rows that cannot be told apart -/

mutual

/-- Rows that pass the same comparisons with the mentioned properties satisfy a predicate
alike. -/
theorem holds_congr {r s : Resource} : ∀ {p : Predicate},
    (∀ id ∈ p.mentioned, ∀ e, (equals id e).holds r = (equals id e).holds s) →
      p.holds r = p.holds s
  | .equals id e, h => h id (by simp [mentioned]) e
  | .all ps, h => allHold_congr h
  | .any ps, h => anyHolds_congr h

theorem allHold_congr {r s : Resource} : ∀ {ps : List Predicate},
    (∀ id ∈ mentionedIn ps, ∀ e, (equals id e).holds r = (equals id e).holds s) →
      allHold r ps = allHold s ps
  | [], _ => rfl
  | p :: ps, h => by
    have hp : p.holds r = p.holds s :=
      holds_congr fun id hid => h id (by simp [mentionedIn, hid])
    have hps : allHold r ps = allHold s ps :=
      allHold_congr fun id hid => h id (by simp [mentionedIn, hid])
    simp [allHold, hp, hps]

theorem anyHolds_congr {r s : Resource} : ∀ {ps : List Predicate},
    (∀ id ∈ mentionedIn ps, ∀ e, (equals id e).holds r = (equals id e).holds s) →
      anyHolds r ps = anyHolds s ps
  | [], _ => rfl
  | p :: ps, h => by
    have hp : p.holds r = p.holds s :=
      holds_congr fun id hid => h id (by simp [mentionedIn, hid])
    have hps : anyHolds r ps = anyHolds s ps :=
      anyHolds_congr fun id hid => h id (by simp [mentionedIn, hid])
    simp [anyHolds, hp, hps]

end

/-- The ids that an optional predicate mentions. -/
def mentions (p : Option Predicate) : List PropertyId := (p.map mentioned).getD []

theorem admits_congr {r s : Resource} {p : Option Predicate}
    (h : ∀ id ∈ mentions p, r.value? id = s.value? id) : admits p r = admits p s := by
  cases p with
  | none => rfl
  | some p => exact holds_congr fun id hid e => by simp [holds, h id hid]

/-! ## Composites -/

theorem admits_conjunction {r : Resource} {ps : List Predicate} :
    admits (conjunction ps) r = true ↔ ∀ p ∈ ps, p.holds r = true := by
  rcases ps with _ | ⟨p, _ | ⟨q, ps⟩⟩
  · simp [conjunction, collapse, admits]
  · simp [conjunction, collapse, admits]
  · simp [conjunction, collapse, admits, holds, allHold_eq]

/-- Without operands there is no condition, and everything is admitted. -/
theorem admits_disjunction {r : Resource} {ps : List Predicate} :
    admits (disjunction ps) r = true ↔ ps = [] ∨ ∃ p ∈ ps, p.holds r = true := by
  rcases ps with _ | ⟨p, _ | ⟨q, ps⟩⟩
  · simp [disjunction, collapse, admits]
  · simp [disjunction, collapse, admits]
  · simp [disjunction, collapse, admits, holds, anyHolds_eq]

theorem mem_mentions_conjunction {id : PropertyId} {ps : List Predicate} :
    id ∈ mentions (conjunction ps) ↔ ∃ p ∈ ps, id ∈ p.mentioned := by
  rcases ps with _ | ⟨p, _ | ⟨q, ps⟩⟩
  · simp [conjunction, collapse, mentions]
  · simp [conjunction, collapse, mentions]
  · simp [conjunction, collapse, mentions, mentioned, mentionedIn_eq]

theorem mem_mentions_disjunction {id : PropertyId} {ps : List Predicate} :
    id ∈ mentions (disjunction ps) ↔ ∃ p ∈ ps, id ∈ p.mentioned := by
  rcases ps with _ | ⟨p, _ | ⟨q, ps⟩⟩
  · simp [disjunction, collapse, mentions]
  · simp [disjunction, collapse, mentions]
  · simp [disjunction, collapse, mentions, mentioned, mentionedIn_eq]

/-! ## Predicates that a hash table takes for one -/

mutual

theorem agrees_refl : ∀ p : Predicate, p.agrees p = true
  | .equals _ e => by simp [agrees, e.agrees_refl]
  | .all ps => agreesAll_refl ps
  | .any ps => agreesAll_refl ps

theorem agreesAll_refl : ∀ ps : List Predicate, agreesAll ps ps = true
  | [] => rfl
  | p :: ps => by simp [agreesAll, agrees_refl p, agreesAll_refl ps]

end

mutual

/-- Agreeing predicates have fingerprints of one length, so the fingerprints of operands can be
told apart in their concatenation. -/
theorem length_fingerprint_eq : ∀ {p q : Predicate}, p.agrees q = true →
    p.fingerprint.length = q.fingerprint.length
  | .equals _ _, q, h => by cases q <;> simp_all [agrees, fingerprint]
  | .all ps, q, h => by
    cases q with
    | all qs =>
      have hps : agreesAll ps qs = true := h
      simp [fingerprint, length_fingerprintAll_eq hps]
    | _ => simp [agrees] at h
  | .any ps, q, h => by
    cases q with
    | any qs =>
      have hps : agreesAll ps qs = true := h
      simp [fingerprint, length_fingerprintAll_eq hps]
    | _ => simp [agrees] at h

theorem length_fingerprintAll_eq : ∀ {ps qs : List Predicate}, agreesAll ps qs = true →
    (fingerprintAll ps).length = (fingerprintAll qs).length
  | [], qs, h => by cases qs <;> simp_all [agreesAll]
  | p :: ps, qs, h => by
    cases qs with
    | nil => simp [agreesAll] at h
    | cons q qs =>
      obtain ⟨hp, hps⟩ : p.agrees q = true ∧ agreesAll ps qs = true := by
        simpa [agreesAll] using h
      simp [fingerprintAll, length_fingerprint_eq hp, length_fingerprintAll_eq hps]

end

mutual

/-- Predicates that agree and have one fingerprint are satisfied by the same rows. -/
theorem holds_eq_of_same (r : Resource) : ∀ {p q : Predicate}, p.agrees q = true →
    p.fingerprint = q.fingerprint → p.holds r = q.holds r
  | .equals id e, q, h, hf => by
    cases q with
    | equals id' e' =>
      obtain ⟨rfl, he⟩ : id = id' ∧ e.agrees e' = true := by simpa [agrees] using h
      have ht : e.text = e'.text := by simpa [fingerprint] using hf
      cases hv : r.value? id <;> simp [holds, hv, valueMatches_congr_right ⟨he, ht⟩]
    | _ => simp [agrees] at h
  | .all ps, q, h, hf => by
    cases q with
    | all qs => exact (holdAll_eq_of_same r h (by simp_all [fingerprint])).1
    | _ => simp [agrees] at h
  | .any ps, q, h, hf => by
    cases q with
    | any qs => exact (holdAll_eq_of_same r h (by simp_all [fingerprint])).2
    | _ => simp [agrees] at h

theorem holdAll_eq_of_same (r : Resource) : ∀ {ps qs : List Predicate}, agreesAll ps qs = true →
    fingerprintAll ps = fingerprintAll qs →
      allHold r ps = allHold r qs ∧ anyHolds r ps = anyHolds r qs
  | [], qs, h, _ => by cases qs <;> simp_all [agreesAll]
  | p :: ps, qs, h, hf => by
    cases qs with
    | nil => simp [agreesAll] at h
    | cons q qs =>
      obtain ⟨hp, hps⟩ : p.agrees q = true ∧ agreesAll ps qs = true := by
        simpa [agreesAll] using h
      -- The fingerprints are concatenated; agreement tells where the first one ends.
      obtain ⟨hfp, hfps⟩ := List.append_inj hf (length_fingerprint_eq hp)
      obtain ⟨hall, hany⟩ := holdAll_eq_of_same r hps hfps
      simp [allHold, anyHolds, holds_eq_of_same r hp hfp, hall, hany]

end

theorem mem_of_mem_distinct {ps : List Predicate} {p : Predicate} (h : p ∈ distinct ps) :
    p ∈ ps :=
  (Distinct.keepNew_sublist _ _ ps).subset h

/-- Leaving out repetitions loses no alternative. -/
theorem exists_mem_distinct_holds {r : Resource} {ps : List Predicate} :
    (∃ p ∈ distinct ps, p.holds r = true) ↔ ∃ p ∈ ps, p.holds r = true := by
  constructor
  · rintro ⟨p, hp, hr⟩
    exact ⟨p, mem_of_mem_distinct hp, hr⟩
  · rintro ⟨p, hp, hr⟩
    have hrefl : ∀ q, Distinct.same fingerprint agrees q q = true := fun q => by
      simp [Distinct.same, agrees_refl q]
    obtain ⟨q, hq, hs⟩ := @Distinct.exists_same_of_mem _ _ hrefl [] _ _ hp
    obtain ⟨ha, hf⟩ : q.agrees p = true ∧ q.fingerprint = p.fingerprint := by
      simpa [Distinct.same] using hs
    exact ⟨q, hq, (holds_eq_of_same r ha hf).trans hr⟩

end Predicate
end ResourceQuery
