import ResourceQuery.Proofs.Store.Refusal

/-!
# What is read off a predicate

Two things are read off a predicate without evaluating it: the comparisons that it requires and the
properties that it mentions.  Whatever satisfies the predicate satisfies all comparisons that it
requires, and rows that agree on the mentioned properties satisfy it alike.  So a read reports a
missing instance only where no row matches and the predicate asks for a value of the own key.
-/

namespace ResourceQuery

namespace Predicate

/-- What satisfies the first predicate satisfies the second. -/
def Entails (p q : Predicate) : Prop := ∀ r : Resource, p.holds r = true → q.holds r = true

mutual

/-- A predicate entails what it requires: of a disjunction nothing is required. -/
theorem entails_of_mem_required : ∀ {p : Predicate} {e : PropertyId × Json}, e ∈ p.required →
    p.Entails (equals e.1 e.2)
  | .equals id value, e, he => by
    obtain rfl : e = (id, value) := List.mem_singleton.1 he
    exact fun r hr => hr
  | .all ps, e, he => fun r hr => holds_of_mem_requiredIn he hr
  | .any ps, e, he => by cases he

theorem holds_of_mem_requiredIn : ∀ {ps : List Predicate} {e : PropertyId × Json},
    e ∈ requiredIn ps → ∀ {r : Resource}, allHold r ps = true → (equals e.1 e.2).holds r = true
  | [], e, he, r, _ => by cases he
  | p :: ps, e, he, r, hr => by
    obtain ⟨hp, hps⟩ : p.holds r = true ∧ allHold r ps = true := Bool.and_eq_true_iff.1 hr
    rcases List.mem_append.1 he with he | he
    · exact entails_of_mem_required he r hp
    · exact holds_of_mem_requiredIn he hps

end

theorem mem_propertyIds {p : Predicate} {id : PropertyId} : id ∈ p.propertyIds ↔ id ∈ p.mentioned :=
  SortedSet.mem_ofList

end Predicate

open Predicate (Entails equals)

theorem Table.requiredKey?_eq_some {table : Table} {t : ResourceType} {p : Option Predicate}
    {value : Json} (h : table.requiredKey? t p = some value) :
    ∃ key q, table.schema.keyOf? t = some key ∧ p = some q ∧ (key, value) ∈ q.required := by
  unfold requiredKey? at h
  split at h
  · rename_i key q hkey
    obtain ⟨⟨id, value'⟩, hfind, rfl⟩ := Option.map_eq_some_iff.1 h
    obtain rfl : id = key := by simpa using List.find?_some hfind
    exact ⟨id, q, hkey, rfl, List.mem_of_find?_eq_some hfind⟩
  · cases h

namespace Store

variable {s : Store} {t : ResourceType} {table : Table} {request : Request}
  {p : Option Predicate} {text : String}

/-- A read reports a missing instance when it is not refused for anything else, no row matches and
a value is required at the own key. -/
theorem refusal?_eq_noSuchResource_iff :
    s.refusal? table t request p = some (.noSuchResource text) ↔
      table.unsupported request p = [] ∧
        s.missingParent? table.schema t (Predicate.requires p) = none ∧ table.matching p = [] ∧
        ∃ value, table.requiredKey? t p = some value ∧
          text = ProviderError.notFound t (value.keyText.getD "") := by
  unfold refusal? Predicate.requires
  cases hunsupported : table.unsupported request p with
  | cons id ids => simp
  | nil =>
    cases hparent : s.missingParent? table.schema t ((p.map Predicate.required).getD []) with
    | some missing => simp
    | none =>
      cases hmatching : table.matching p with
      | cons r rs => simp
      | nil =>
        cases hkey : table.requiredKey? t p with
        | none => simp
        | some value => simp [eq_comm]

/-- A read fails when its type is unknown, or when it is refused. -/
theorem read_eq_error_iff {e : ProviderError} : s.read t request p = .error e ↔
    (s.table? t = none ∧ e = .systemFailure ("no data for resource type " ++ t.name)) ∨
      ∃ table, s.table? t = some table ∧ s.refusal? table t request p = some e := by
  unfold read
  cases htable : s.table? t with
  | none => simp [eq_comm]
  | some table => cases hrefusal : s.refusal? table t request p <;> simp [hrefusal]

/-- A row that satisfies a predicate satisfies what it requires, and rows that agree on what it
mentions satisfy it alike.  A read that reports a missing instance has no matching row, and its
predicate entails a comparison with the own key of the type. -/
theorem required_mentioned_sound :
    (∀ (p : Predicate) (r : Resource), p.holds r = true →
      ∀ e ∈ p.required, (equals e.1 e.2).holds r = true) ∧
    (∀ (p : Predicate) (r r' : Resource), (∀ id ∈ p.propertyIds, r.value? id = r'.value? id) →
      p.holds r = p.holds r') ∧
    (∀ (s : Store) t request p text, s.read t request p = .error (.noSuchResource text) →
      ∃ q key value, p = some q ∧ (∀ row ∈ s.rows t, q.holds row = false) ∧
        (s.schema t).keyOf? t = some key ∧ q.Entails (equals key value) ∧
        text = ProviderError.notFound t (value.keyText.getD "")) := by
  refine ⟨fun p r hr e he => Predicate.entails_of_mem_required he r hr, fun p r r' h => ?_,
    fun s t request p text h => ?_⟩
  · have hmentions : ∀ id ∈ Predicate.mentions (some p), r.value? id = r'.value? id :=
      fun id hid => h id (Predicate.mem_propertyIds.2 hid)
    exact Predicate.admits_congr hmentions
  · obtain ⟨table, htable, hrefusal⟩ := (read_eq_error_iff.1 h).resolve_left nofun
    obtain ⟨-, -, hmatching, value, hvalue, htext⟩ := refusal?_eq_noSuchResource_iff.1 hrefusal
    obtain ⟨key, q, hkey, rfl, hrequired⟩ := Table.requiredKey?_eq_some hvalue
    refine ⟨q, key, value, rfl, fun row hrow => ?_, ?_,
      Predicate.entails_of_mem_required hrequired, htext⟩
    · rw [rows_of_table? htable] at hrow
      exact Bool.eq_false_iff.2 (List.filter_eq_nil_iff.1 hmatching row hrow)
    · rw [schema_of_table? htable, hkey]

/-- A store with one host. -/
def oneHost : Store :=
  ((∅ : Store).register ⟨"Host"⟩ (.ofList [(⟨"Host"⟩, ⟨"name"⟩)])).addRow
    ⟨⟨"Host"⟩, .ofList [(⟨"load"⟩, .number (.int 8)), (⟨"name"⟩, .string "h1")]⟩

/-- Another host, under a load that the stored one has. -/
def loadedHost : Predicate :=
  .all [.any [.equals ⟨"load"⟩ (.string "8"), .any []], .all [.equals ⟨"name"⟩ (.string "h2")],
    .all []]

theorem required_mentioned_sound_loadedHost :
    loadedHost.required.map (·.1) = [⟨"name"⟩] ∧
      oneHost.read ⟨"Host"⟩ ⟨∅, ∅⟩ (some loadedHost) =
        .error (.noSuchResource "Host 'h2' not found") ∧
      (∀ row ∈ oneHost.rows ⟨"Host"⟩, loadedHost.holds row = false) ∧
      ∃ key value, (oneHost.schema ⟨"Host"⟩).keyOf? ⟨"Host"⟩ = some key ∧
        loadedHost.Entails (equals key value) := by
  have hread : oneHost.read ⟨"Host"⟩ ⟨∅, ∅⟩ (some loadedHost) =
      .error (.noSuchResource "Host 'h2' not found") := rfl
  obtain ⟨q, key, value, hq, hrows, hkey, hentails, -⟩ :=
    required_mentioned_sound.2.2 _ _ _ _ _ hread
  obtain rfl := Option.some.inj hq
  exact ⟨by decide +kernel, hread, hrows, key, value, hkey, hentails⟩

end Store
end ResourceQuery
