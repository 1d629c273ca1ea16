import ResourceQuery.Proofs.Json.Zeros
import ResourceQuery.Query.Agreement

/-!
# Equality and hashing

Rows, predicates and queries are compared by their values, but hashed by the texts of their values.
Equal elements have the same hash data exactly when their zeros have the same signs, because the
texts of `0.0` and `-0.0` differ and everything else about equal elements is the same.  So a hash
table can keep two equal elements, namely when they differ in the sign of a zero and in no other
case.
-/

namespace ResourceQuery

/-- Of some elements any two equal ones have the same hash data exactly when their zeros have the
same signs, and a hash table of them keeps two equal ones only if these signs differ. -/
structure HashedBySign {α : Type} (fingerprint : α → Fingerprint) (agrees : α → α → Bool)
    (zeroSigns : α → List Bool) (xs : List α) : Prop where
  fingerprint_eq_iff : ∀ x ∈ xs, ∀ y ∈ xs, agrees x y = true →
    (fingerprint x = fingerprint y ↔ zeroSigns x = zeroSigns y)
  kept : (Distinct.firsts fingerprint agrees xs).Pairwise fun x y =>
    agrees x y = true → zeroSigns x ≠ zeroSigns y

/-- What a hash table keeps is decided by when the hash data are the same. -/
theorem hashedBySign_of_iff {α : Type} {fingerprint : α → Fingerprint} {agrees : α → α → Bool}
    {zeroSigns : α → List Bool}
    (h : ∀ x y, agrees x y = true → (fingerprint x = fingerprint y ↔ zeroSigns x = zeroSigns y))
    (xs : List α) : HashedBySign fingerprint agrees zeroSigns xs where
  fingerprint_eq_iff x _ y _ := h x y
  kept := by
    refine (Distinct.pairwise_firsts fingerprint agrees xs).imp fun {x y} hdiffer hagrees hsigns => ?_
    have hsame : Distinct.same fingerprint agrees x y = true := by
      simp [Distinct.same, hagrees, (h x y hagrees).2 hsigns]
    rw [hsame] at hdiffer
    cases hdiffer

theorem Json.mark_tellsApart {x y : Json} (h : x.agrees y = true) :
    TellsApart (fun z : Json => [Mark.text z.text]) x y := by
  intro a b hab
  have htext : x.text = y.text := by simpa using (List.cons.inj hab).1
  exact (Json.text_tellsApart h).eq_iff.1 (congrArg String.toList htext)

/-! ## Rows -/

namespace Resource

/-- The signs of the zeros in a row. -/
def zeroSigns (r : Resource) : List Bool := r.properties.entries.flatMap fun (_, x) => x.zeroSigns

/-- The entries of agreeing rows agree one by one. -/
theorem entries_forall₂ : ∀ {xs ys : List (PropertyId × Json)}, xs.map (·.1) = ys.map (·.1) →
    Json.agreesItems (xs.map (·.2)) (ys.map (·.2)) = true →
    List.Forall₂ (fun p q => p.1 = q.1 ∧ p.2.agrees q.2 = true) xs ys
  | [], ys, hkeys, _ => by
    obtain rfl : ys = [] := by simpa using hkeys
    exact .nil
  | x :: xs, [], hkeys, _ => by simp at hkeys
  | x :: xs, y :: ys, hkeys, hvalues => by
    obtain ⟨hkey, hkeys⟩ : x.1 = y.1 ∧ xs.map (·.1) = ys.map (·.1) := by simpa using hkeys
    obtain ⟨hvalue, hvalues⟩ : x.2.agrees y.2 = true ∧
        Json.agreesItems (xs.map (·.2)) (ys.map (·.2)) = true := by
      simpa [Json.agreesItems] using hvalues
    exact .cons ⟨hkey, hvalue⟩ (entries_forall₂ hkeys hvalues)

/-- Agreeing rows are the same if their entries are told apart and written alike. -/
theorem tellsApart_of_agrees {β : Type} {r s : Resource} (label : PropertyId → List β)
    {f : Json → List β} (hf : ∀ {x y : Json}, x.agrees y = true → TellsApart f x y)
    (h : r.agrees s = true) :
    TellsApart (fun t : Resource => t.properties.entries.flatMap fun p => label p.1 ++ f p.2)
      r s := by
  obtain ⟨htype, hkeys, hvalues⟩ : r.type = s.type ∧ r.properties.keys = s.properties.keys ∧
      Json.agreesItems r.properties.values s.properties.values = true := by
    simpa [agrees] using h
  have hentries : List.Forall₂ (fun p q => p.1 = q.1 ∧ TellsApart f p.2 q.2)
      r.properties.entries s.properties.entries :=
    (entries_forall₂ hkeys hvalues).imp fun p q hpq => ⟨hpq.1, hf hpq.2⟩
  intro a b hab
  have hsame : r.properties.entries = s.properties.entries :=
    TellsApart.flatMap (Json.tellsApart_fields label hentries) a b hab
  obtain ⟨type, entries, sorted⟩ := r
  obtain ⟨type', entries', sorted'⟩ := s
  obtain rfl : type = type' := htype
  obtain rfl : entries = entries' := hsame
  rfl

theorem fingerprint_tellsApart {r s : Resource} (h : r.agrees s = true) :
    TellsApart fingerprint r s := by
  have hmarks (t : Resource) : t.fingerprint = [.text t.type.name] ++
      t.properties.entries.flatMap fun p => [.text p.1.text] ++ [.text p.2.text] := rfl
  intro a b hab
  rw [hmarks, hmarks] at hab
  exact tellsApart_of_agrees (fun id => [Mark.text id.text]) Json.mark_tellsApart h a b
    (List.cons.inj hab).2

theorem zeroSigns_tellsApart {r s : Resource} (h : r.agrees s = true) :
    TellsApart zeroSigns r s :=
  tellsApart_of_agrees (fun _ => []) Json.zeroSigns_tellsApart h

end Resource

/-! ## Predicates -/

namespace Predicate

mutual

/-- The signs of the zeros that a predicate compares with. -/
def zeroSigns : Predicate → List Bool
  | .equals _ value => value.zeroSigns
  | .all ops => zeroSignsAll ops
  | .any ops => zeroSignsAll ops

/-- The signs of the zeros that operands compare with. -/
def zeroSignsAll : List Predicate → List Bool
  | [] => []
  | p :: ps => p.zeroSigns ++ zeroSignsAll ps

end

theorem zeroSignsAll_eq (ps : List Predicate) : zeroSignsAll ps = ps.flatMap zeroSigns := by
  induction ps with
  | nil => rfl
  | cons p ps ih => simp [zeroSignsAll, ih]

theorem fingerprintAll_eq (ps : List Predicate) : fingerprintAll ps = ps.flatMap fingerprint := by
  induction ps with
  | nil => rfl
  | cons p ps ih => simp [fingerprintAll, ih]

/-- A relation that passes from the parts of agreeing predicates to the predicates. -/
structure Passes (R : Predicate → Predicate → Prop) : Prop where
  equals : ∀ id e e', e.agrees e' = true → R (.equals id e) (.equals id e')
  all : ∀ ps qs, List.Forall₂ R ps qs → R (.all ps) (.all qs)
  any : ∀ ps qs, List.Forall₂ R ps qs → R (.any ps) (.any qs)

namespace Passes

variable {R : Predicate → Predicate → Prop}

mutual

/-- Such a relation holds between agreeing predicates. -/
theorem of_agrees (hR : Passes R) : ∀ {p q : Predicate}, p.agrees q = true → R p q
  | .equals id e, q, h => by
    cases q with
    | equals id' e' =>
      obtain ⟨rfl, he⟩ : id = id' ∧ e.agrees e' = true := by simpa [agrees] using h
      exact hR.equals id e e' he
    | _ => simp [agrees] at h
  | .all ps, q, h => by
    cases q with
    | all qs => exact hR.all ps qs (hR.of_agreesAll (by simpa [agrees] using h))
    | _ => simp [agrees] at h
  | .any ps, q, h => by
    cases q with
    | any qs => exact hR.any ps qs (hR.of_agreesAll (by simpa [agrees] using h))
    | _ => simp [agrees] at h

theorem of_agreesAll (hR : Passes R) : ∀ {ps qs : List Predicate}, agreesAll ps qs = true →
    List.Forall₂ R ps qs
  | [], qs, h => by
    cases qs with
    | nil => exact .nil
    | cons q qs => simp [agreesAll] at h
  | p :: ps, qs, h => by
    cases qs with
    | nil => simp [agreesAll] at h
    | cons q qs =>
      obtain ⟨hp, hps⟩ : p.agrees q = true ∧ agreesAll ps qs = true := by
        simpa [agreesAll] using h
      exact .cons (hR.of_agrees hp) (hR.of_agreesAll hps)

end

end Passes

theorem fingerprint_tellsApart {p q : Predicate} (h : p.agrees q = true) :
    TellsApart fingerprint p q := by
  have hpasses : Passes (TellsApart fingerprint) := by
    refine ⟨fun id e e' he a b hab => ?_, fun ps qs hps a b hab => ?_, fun ps qs hps a b hab => ?_⟩
    · -- Only the last mark depends on the value.
      have hvalue : [Mark.text e.text] ++ a = [Mark.text e'.text] ++ b := by
        simpa [fingerprint] using hab
      rw [Json.mark_tellsApart he a b hvalue]
    · simp only [fingerprint, fingerprintAll_eq, List.cons_append, List.cons.injEq] at hab
      rw [TellsApart.flatMap hps a b hab.2.2]
    · simp only [fingerprint, fingerprintAll_eq, List.cons_append, List.cons.injEq] at hab
      rw [TellsApart.flatMap hps a b hab.2.2]
  exact hpasses.of_agrees h

theorem zeroSigns_tellsApart {p q : Predicate} (h : p.agrees q = true) :
    TellsApart zeroSigns p q := by
  have hpasses : Passes (TellsApart zeroSigns) := by
    refine ⟨fun id e e' he a b hab => ?_, fun ps qs hps a b hab => ?_, fun ps qs hps a b hab => ?_⟩
    · rw [Json.zeroSigns_tellsApart he a b hab]
    · simp only [zeroSigns, zeroSignsAll_eq] at hab
      rw [TellsApart.flatMap hps a b hab]
    · simp only [zeroSigns, zeroSignsAll_eq] at hab
      rw [TellsApart.flatMap hps a b hab]
  exact hpasses.of_agrees h

end Predicate

/-! ## Queries -/

namespace AddressedQuery

/-- The signs of the zeros in a query: those in its filter. -/
def zeroSigns (x : AddressedQuery) : List Bool :=
  (x.query.node.userPredicate.map Predicate.zeroSigns).getD []

/-- What is compared of two queries. -/
theorem agrees_iff {x y : AddressedQuery} : x.agrees y = true ↔
    x.provider = y.provider ∧ x.query.node.type = y.query.node.type ∧
      x.query.node.propertyIds = y.query.node.propertyIds ∧
      x.query.node.keyMap = y.query.node.keyMap ∧
      filtersAgree x.query.node.userPredicate y.query.node.userPredicate = true ∧
      x.query.node.page = y.query.node.page := by
  have hids {s t : SortedSet PropertyId} : s.toList = t.toList ↔ s = t :=
    ⟨fun h => SortedSet.ext_mem fun id => by show id ∈ s.toList ↔ id ∈ t.toList; rw [h],
      congrArg SortedSet.toList⟩
  have hkeyMap {m n : KeyMap} : m.entries = n.entries ↔ m = n :=
    ⟨fun h => SortedMap.ext_get? fun t => by rw [SortedMap.get?, SortedMap.get?, h],
      congrArg SortedMap.entries⟩
  simp only [agrees, Bool.and_eq_true, beq_iff_eq, hids, hkeyMap, and_assoc]

/-- Of what two equal queries are hashed by only their filters can differ. -/
theorem fingerprint_eq_iff_filter {x y : AddressedQuery} (h : x.agrees y = true) :
    x.fingerprint = y.fingerprint ↔
      Fingerprint.ofOption Predicate.fingerprint x.query.node.userPredicate =
        Fingerprint.ofOption Predicate.fingerprint y.query.node.userPredicate := by
  obtain ⟨hprovider, htype, hids, hkeyMap, -, hpage⟩ := agrees_iff.1 h
  simp only [fingerprint, KeyMap.fingerprint, hprovider, htype, hids, hkeyMap, hpage,
    List.append_assoc, List.append_cancel_left_eq, List.append_cancel_right_eq]

theorem fingerprint_eq_iff_zeroSigns {x y : AddressedQuery} (h : x.agrees y = true) :
    x.fingerprint = y.fingerprint ↔ x.zeroSigns = y.zeroSigns := by
  rw [fingerprint_eq_iff_filter h, zeroSigns, zeroSigns]
  obtain ⟨-, -, -, -, hfilters, -⟩ := agrees_iff.1 h
  cases hx : x.query.node.userPredicate with
  | none =>
    cases hy : y.query.node.userPredicate with
    | none => simp
    | some q => simp [filtersAgree, hx, hy] at hfilters
  | some p =>
    cases hy : y.query.node.userPredicate with
    | none => simp [filtersAgree, hx, hy] at hfilters
    | some q =>
      rw [hx, hy] at hfilters
      have hsigns := (Predicate.zeroSigns_tellsApart hfilters).eq_iff
      have hmarks := (Predicate.fingerprint_tellsApart hfilters).eq_iff
      simp [Fingerprint.ofOption, hsigns, hmarks]

end AddressedQuery

/-! ## What hash tables keep -/

/-- Equal rows, equal predicates and equal queries have the same hash data exactly when their zeros
have the same signs, and hash tables keep two equal ones only if these signs differ. -/
theorem hashedBySign_rows_predicates_queries (rows : List Resource) (predicates : List Predicate)
    (queries : List AddressedQuery) :
    HashedBySign Resource.fingerprint Resource.agrees Resource.zeroSigns rows ∧
      HashedBySign Predicate.fingerprint Predicate.agrees Predicate.zeroSigns predicates ∧
      HashedBySign AddressedQuery.fingerprint AddressedQuery.agrees AddressedQuery.zeroSigns
        queries := by
  refine ⟨hashedBySign_of_iff (fun r s h => ?_) rows, hashedBySign_of_iff (fun p q h => ?_) _,
    hashedBySign_of_iff (fun x y h => AddressedQuery.fingerprint_eq_iff_zeroSigns h) queries⟩
  · rw [(Resource.fingerprint_tellsApart h).eq_iff, (Resource.zeroSigns_tellsApart h).eq_iff]
  · rw [(Predicate.fingerprint_tellsApart h).eq_iff, (Predicate.zeroSigns_tellsApart h).eq_iff]

/-- The condition that a load is a given zero. -/
def zeroLoad (x : Binary64) : Predicate := .equals ⟨"load"⟩ (.number (.float x))

/-- The two zeros are equal, but they are hashed apart, and a hash table keeps both. -/
theorem zeroLoads_hashed_apart :
    (zeroLoad .zero).agrees (zeroLoad Binary64.zero.neg) = true ∧
      (zeroLoad .zero).fingerprint ≠ (zeroLoad Binary64.zero.neg).fingerprint ∧
      (Predicate.distinct [zeroLoad .zero, zeroLoad Binary64.zero.neg]).length = 2 := by
  decide +kernel

/-- The theorem at the two zeros, of which the first is compared with twice. -/
theorem zeroLoads_hashedBySign :
    (zeroLoad .zero).zeroSigns ≠ (zeroLoad Binary64.zero.neg).zeroSigns ∧
      HashedBySign Predicate.fingerprint Predicate.agrees Predicate.zeroSigns
        [zeroLoad .zero, zeroLoad Binary64.zero.neg, zeroLoad .zero] :=
  ⟨by decide +kernel, (hashedBySign_rows_predicates_queries [] _ []).2.1⟩

end ResourceQuery
