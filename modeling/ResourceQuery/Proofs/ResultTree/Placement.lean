import ResourceQuery.ResultTree.Render

/-!
# Values at the ends of paths

A value is put into an object at the end of a path of names.  As long as only objects stand on
the way, it is found there afterwards, and everything beside the path is as it was.  So values
whose paths do not go through one another can be put into one object, and all of them are found in
it, and nothing else.
-/

namespace ResourceQuery

namespace Json

/-- The value at the end of a path of names. -/
def at? : Json → List String → Option Json
  | json, [] => some json
  | .object fields, name :: path => (Entries.get? name fields).bind (at? · path)
  | _, _ :: _ => none

theorem at?_nil (json : Json) : json.at? [] = some json := by
  cases json <;> rfl

theorem at?_cons (fields : List (String × Json)) (name : String) (path : List String) :
    (object fields).at? (name :: path) = (Entries.get? name fields).bind (at? · path) := rfl

theorem at?_append (json : Json) (path rest : List String) :
    json.at? (path ++ rest) = (json.at? path).bind (at? · rest) := by
  induction path generalizing json with
  | nil => rw [List.nil_append, at?_nil, Option.bind_some]
  | cons name path ih =>
    cases json with
    | object fields =>
      rw [List.cons_append, at?_cons, at?_cons]
      cases Entries.get? name fields with
      | none => rfl
      | some value => exact ih value
    | _ => rfl

/-- What stands on the way to a value is an object. -/
theorem exists_object_of_at? {json value : Json} {path rest : List String} (hne : rest ≠ [])
    (h : json.at? (path ++ rest) = some value) : ∃ fields, json.at? path = some (object fields) := by
  obtain ⟨name, rest, rfl⟩ := List.exists_cons_of_ne_nil hne
  rw [at?_append] at h
  obtain ⟨between, hbetween, hrest⟩ := Option.bind_eq_some_iff.1 h
  cases between with
  | object fields => exact ⟨fields, hbetween⟩
  | _ => cases hrest

end Json

namespace Resource

open Json

variable {value : Json} {name : String} {path p : List String} {fields inner : List (String × Json)}

/-! ## One value -/

/-- What stands on the way to the end of a path, if anything, is an object. -/
def IsOpen (path : List String) (fields : List (String × Json)) : Prop :=
  ∀ p, p <+: path → p ≠ path → ∀ w, (object fields).at? p = some w → ∃ inner, w = object inner

/-- The object under a name, or one without fields where there is none yet. -/
def IsInner (name : String) (fields inner : List (String × Json)) : Prop :=
  Entries.get? name fields = some (object inner) ∨ Entries.get? name fields = none ∧ inner = []

theorem IsInner.at? (h : IsInner name fields inner) (hne : p ≠ []) :
    (object inner).at? p = (object fields).at? (name :: p) := by
  rw [at?_cons]
  rcases h with h | ⟨h, rfl⟩
  · rw [h, Option.bind_some]
  · obtain ⟨name', p, rfl⟩ := List.exists_cons_of_ne_nil hne
    rw [h]
    rfl

theorem IsOpen.beneath (hopen : IsOpen (name :: path) fields) (h : IsInner name fields inner) :
    IsOpen path inner := by
  intro p hprefix hne w hw
  by_cases hnil : p = []
  · rw [hnil, at?_nil] at hw
    exact ⟨inner, (Option.some.inj hw).symm⟩
  · rw [h.at? hnil] at hw
    refine hopen (name :: p) (List.cons_prefix_cons.2 ⟨rfl, hprefix⟩) ?_ w hw
    exact fun heq => hne (List.cons.inj heq).2

/-- A value with more than one name to go is put into the object under the first of them. -/
theorem insertAt_cons (value : Json) (hopen : IsOpen (name :: path) fields) (hne : path ≠ []) :
    ∃ inner, IsInner name fields inner ∧ insertAt value (name :: path) fields =
      Entries.insert name (object (insertAt value path inner)) fields := by
  obtain ⟨next, rest, rfl⟩ := List.exists_cons_of_ne_nil hne
  cases hget : Entries.get? name fields with
  | none => exact ⟨[], .inr ⟨hget, rfl⟩, by simp only [insertAt, hget]⟩
  | some w =>
    have hat : (object fields).at? [name] = some w := by
      rw [at?_cons, hget, Option.bind_some, at?_nil]
    obtain ⟨inner, rfl⟩ := hopen [name] (List.prefix_append [name] _) (by simp) w hat
    exact ⟨inner, .inl hget, by simp only [insertAt, hget]⟩

theorem at?_insert_self : (object (Entries.insert name value fields)).at? (name :: p) =
    value.at? p := by
  rw [at?_cons, Entries.get?_insert, if_pos rfl, Option.bind_some]

theorem at?_insert_of_ne {name' : String} (hne : name' ≠ name) :
    (object (Entries.insert name value fields)).at? (name' :: p) =
      (object fields).at? (name' :: p) := by
  rw [at?_cons, at?_cons, Entries.get?_insert, if_neg hne]

/-- The value is found at the end of its path. -/
theorem at?_insertAt_append (hopen : IsOpen path fields) (hne : path ≠ []) (rest : List String) :
    (object (insertAt value path fields)).at? (path ++ rest) = value.at? rest := by
  induction path generalizing fields with
  | nil => exact absurd rfl hne
  | cons name path ih =>
    by_cases hnil : path = []
    · rw [hnil]
      exact at?_insert_self
    · obtain ⟨inner, hinner, hinsert⟩ := insertAt_cons value hopen hnil
      rw [hinsert, List.cons_append, at?_insert_self]
      exact ih (hopen.beneath hinner) hnil

/-- Beside the path nothing changes. -/
theorem at?_insertAt_of_apart (hopen : IsOpen path fields) (h : ¬ path <+: p) (h' : ¬ p <+: path) :
    (object (insertAt value path fields)).at? p = (object fields).at? p := by
  induction path generalizing fields p with
  | nil => exact absurd List.nil_prefix h
  | cons name path ih =>
    cases p with
    | nil => exact absurd List.nil_prefix h'
    | cons name' p =>
      by_cases hnil : path = []
      · obtain rfl := hnil
        refine at?_insert_of_ne fun hname => h ?_
        exact hname ▸ List.cons_prefix_cons.2 ⟨rfl, List.nil_prefix⟩
      · obtain ⟨inner, hinner, hinsert⟩ := insertAt_cons value hopen hnil
        rw [hinsert]
        by_cases hname : name' = name
        · obtain rfl := hname
          have hp : ¬ path <+: p := fun hp => h (List.cons_prefix_cons.2 ⟨rfl, hp⟩)
          have hp' : ¬ p <+: path := fun hp' => h' (List.cons_prefix_cons.2 ⟨rfl, hp'⟩)
          have hne : p ≠ [] := fun hnil => hp' (hnil ▸ List.nil_prefix)
          rw [at?_insert_self, ih (hopen.beneath hinner) hp hp', hinner.at? hne]
        · exact at?_insert_of_ne hname

theorem sorted_insertAt (h : Entries.Sorted fields) :
    Entries.Sorted (insertAt value path fields) := by
  unfold insertAt
  split
  · exact h
  · exact h.insert _ _
  · split
    · exact h.insert _ _
    · exact h.insert _ _
    · exact h

/-- On the path there are objects afterwards, and their fields are in order if they were before. -/
theorem sorted_of_at?_insertAt (hopen : IsOpen path fields) (h : p <+: path) (hne : p ≠ path)
    (hsorted : ∀ p, p <+: path → p ≠ path → ∀ inner, (object fields).at? p = some (object inner) →
      Entries.Sorted inner) {inner : List (String × Json)}
    (hinner : (object (insertAt value path fields)).at? p = some (object inner)) :
    Entries.Sorted inner := by
  induction path generalizing fields p with
  | nil => exact absurd (List.prefix_nil.1 h) hne
  | cons name path ih =>
    cases p with
    | nil =>
      rw [at?_nil, Option.some.injEq, object.injEq] at hinner
      obtain rfl := hinner
      exact sorted_insertAt (hsorted [] h hne fields (at?_nil _))
    | cons name' p =>
      obtain ⟨rfl, hp⟩ := List.cons_prefix_cons.1 h
      have hp' : p ≠ path := fun heq => hne (heq ▸ rfl)
      have hnil : path ≠ [] := fun hnil => hp' (by rw [hnil] at hp ⊢; exact List.prefix_nil.1 hp)
      obtain ⟨between, hbetween, hinsert⟩ := insertAt_cons value hopen hnil
      rw [hinsert, at?_insert_self] at hinner
      refine ih (hopen.beneath hbetween) hp hp' (fun p hp hp' inner hat => ?_) hinner
      have hcons : name' :: p <+: name' :: path := List.cons_prefix_cons.2 ⟨rfl, hp⟩
      have hcons' : name' :: p ≠ name' :: path := fun heq => hp' (List.cons.inj heq).2
      by_cases hpnil : p = []
      · -- The object itself was there before, or it is new and has no fields.
        rw [hpnil, at?_nil, Option.some.injEq, object.injEq] at hat
        obtain rfl := hat
        rcases hbetween with hget | ⟨-, rfl⟩
        · refine hsorted [name'] (hpnil ▸ hcons) (hpnil ▸ hcons') between ?_
          rw [at?_cons, hget, Option.bind_some, at?_nil]
        · exact Entries.sorted_nil
      · exact hsorted (name' :: p) hcons hcons' inner (hbetween.at? hpnil ▸ hat)

end Resource

/-! ## Many values -/

/-- The fields hold the given values at the ends of their paths, and nothing else. -/
structure Places (entries : List (List String × Json)) (fields : List (String × Json)) : Prop where
  reach : ∀ e ∈ entries, (Json.object fields).at? e.1 = some e.2
  /-- Whatever is reached is the object itself, is on the way to one of the values, or is part of
  one. -/
  only : ∀ {path w}, (Json.object fields).at? path = some w →
    path = [] ∨ ∃ e ∈ entries, path <+: e.1 ∨ e.1 <+: path
  /-- No object outside the values has two fields of one name. -/
  sorted : ∀ {path inner}, (path = [] ∨ ∃ e ∈ entries, path <+: e.1 ∧ path ≠ e.1) →
    (Json.object fields).at? path = some (.object inner) → Entries.Sorted inner

namespace Places

open Json Resource

variable {value : Json} {path : List String} {entries : List (List String × Json)}
  {fields : List (String × Json)}

theorem nil : Places [] [] where
  reach e he := by cases he
  only {path w} h := by
    cases path with
    | nil => exact .inl rfl
    | cons name path => cases h
  sorted {path inner} hpath h := by
    rcases hpath with rfl | ⟨e, he, -⟩
    · rw [at?_nil, Option.some.injEq, object.injEq] at h
      exact h ▸ Entries.sorted_nil
    · cases he

theorem isOpen (h : Places entries fields)
    (hapart : ∀ e ∈ entries, ¬ path <+: e.1 ∧ ¬ e.1 <+: path) : IsOpen path fields := by
  intro p hprefix _ w hw
  rcases h.only hw with rfl | ⟨e, he, hp | hp⟩
  · rw [at?_nil] at hw
    exact ⟨fields, (Option.some.inj hw).symm⟩
  · -- The way to the value of `e` goes on behind `p`.
    obtain ⟨rest, hrest⟩ := hp
    have hne : rest ≠ [] := by
      rintro rfl
      rw [List.append_nil] at hrest
      exact (hapart e he).2 (hrest ▸ hprefix)
    obtain ⟨inner, hinner⟩ := exists_object_of_at? hne (hrest.symm ▸ h.reach e he)
    exact ⟨inner, Option.some.inj (hw.symm.trans hinner)⟩
  · exact absurd (hp.trans hprefix) (hapart e he).2

/-- One more value can be put beside the others. -/
theorem insertAt (h : Places entries fields) (hne : path ≠ [])
    (hapart : ∀ e ∈ entries, ¬ path <+: e.1 ∧ ¬ e.1 <+: path) :
    Places (entries ++ [(path, value)]) (insertAt value path fields) where
  reach e he := by
    rcases List.mem_append.1 he with he | he
    · obtain ⟨hp, hp'⟩ := hapart e he
      rw [at?_insertAt_of_apart (h.isOpen hapart) hp hp', h.reach e he]
    · obtain rfl := List.mem_singleton.1 he
      have hat : (object (Resource.insertAt value path fields)).at? (path ++ []) = value.at? [] :=
        at?_insertAt_append (h.isOpen hapart) hne []
      rwa [List.append_nil, at?_nil] at hat
  only {p w} hw := by
    by_cases hp : path <+: p
    · exact .inr ⟨(path, value), by simp, .inr hp⟩
    by_cases hp' : p <+: path
    · exact .inr ⟨(path, value), by simp, .inl hp'⟩
    rw [at?_insertAt_of_apart (h.isOpen hapart) hp hp'] at hw
    exact (h.only hw).imp_right fun ⟨e, he, hrelated⟩ =>
      ⟨e, List.mem_append_left _ he, hrelated⟩
  sorted {p inner} hway hinner := by
    have hbefore {p : List String} (hp : p <+: path) {inner : List (String × Json)}
        (hat : (object fields).at? p = some (object inner)) : Entries.Sorted inner := by
      rcases h.only hat with rfl | ⟨e, he, hrelated⟩
      · exact h.sorted (.inl rfl) hat
      · rcases hrelated with hpe | hpe
        · refine h.sorted (.inr ⟨e, he, hpe, ?_⟩) hat
          exact fun heq => (hapart e he).2 (heq ▸ hp)
        · exact absurd (hpe.trans hp) (hapart e he).2
    by_cases hp : p <+: path ∧ p ≠ path
    · exact sorted_of_at?_insertAt (h.isOpen hapart) hp.1 hp.2 (fun p hp _ inner => hbefore hp) hinner
    · -- Then `p` is on the way to one of the other values, and the new one is beside it.
      rcases hway with rfl | ⟨e, he, hpe, hpne⟩
      · exact absurd ⟨List.nil_prefix, Ne.symm hne⟩ hp
      rcases List.mem_append.1 he with he | he
      · have hp' : ¬ p <+: path := fun hpp =>
          hp ⟨hpp, fun heq => (hapart e he).1 (heq ▸ hpe)⟩
        have hp'' : ¬ path <+: p := fun hpp => (hapart e he).1 (hpp.trans hpe)
        rw [at?_insertAt_of_apart (h.isOpen hapart) hp'' hp'] at hinner
        exact h.sorted (.inr ⟨e, he, hpe, hpne⟩) hinner
      · obtain rfl := List.mem_singleton.1 he
        exact absurd ⟨hpe, hpne⟩ hp

/-- Neither of two paths goes through the other. -/
def Apart (path path' : List String) : Prop := ¬ path <+: path' ∧ ¬ path' <+: path

theorem foldl_insertAt {added : List (List String × Json)} (h : Places entries fields)
    (hne : ∀ e ∈ added, e.1 ≠ [])
    (hapart : (entries ++ added).Pairwise fun e e' => Apart e.1 e'.1) :
    Places (entries ++ added)
      (added.foldl (fun fields e => Resource.insertAt e.2 e.1 fields) fields) := by
  induction added generalizing entries fields with
  | nil => simpa using h
  | cons e added ih =>
    obtain ⟨hhead, hrest⟩ := List.forall_mem_cons.1 hne
    have hsplit : entries ++ e :: added = entries ++ [e] ++ added := by simp
    rw [hsplit] at hapart ⊢
    refine ih (h.insertAt hhead fun e' he' => ?_) hrest hapart
    have hpair := (List.pairwise_append.1 (List.pairwise_append.1 hapart).1).2.2 e' he' e (by simp)
    exact ⟨hpair.2, hpair.1⟩

end Places
end ResourceQuery
