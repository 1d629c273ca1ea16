import ResourceQuery.Proofs.PropertyId.Containment
import ResourceQuery.Proofs.Store.Rows

/-!
# Projection to the properties beneath some ids

An id selects itself and every property beneath it, and beneath an id are the properties whose
segments begin with its own.  A row that is projected keeps just the properties that one of the ids
selects, with their values.  So projecting twice keeps what both sets select, and an id that is
beneath another one of its set selects nothing that would not be kept without it.
-/

namespace ResourceQuery

/-- The segments of a property begin with those of one of the ids. -/
def PropertyId.BeneathAny (ids : SortedSet PropertyId) (id : PropertyId) : Prop :=
  ∃ selected ∈ ids, segments selected.text <+: segments id.text

namespace Resource

open PropertyId (BeneathAny)

variable {ids : SortedSet PropertyId} {id : PropertyId}

theorem isSelected_iff : isSelected ids id = true ↔ BeneathAny ids id := by
  rw [isSelected, List.any_eq_true]
  exact exists_congr fun selected => and_congr_right fun _ => PropertyId.isWithin_iff_segments

theorem value?_project_eq_some_iff {r : Resource} {value : Json} :
    (r.project ids).value? id = some value ↔ r.value? id = some value ∧ BeneathAny ids id := by
  rw [value?_project, Option.filter_eq_some_iff, isSelected_iff]

/-- Beneath an id that is itself beneath one of some ids there is nothing that these do not
select. -/
theorem isSelected_insert {selected : PropertyId} (h : BeneathAny ids selected) :
    isSelected (ids.insert selected) = isSelected ids := by
  funext id
  rw [Bool.eq_iff_iff, isSelected_iff, isSelected_iff]
  constructor
  · rintro ⟨s, hs, hprefix⟩
    rcases SortedSet.mem_insert.1 hs with rfl | hs
    · obtain ⟨above, habove, hprefix'⟩ := h
      exact ⟨above, habove, hprefix'.trans hprefix⟩
    · exact ⟨s, hs, hprefix⟩
  · rintro ⟨s, hs, hprefix⟩
    exact ⟨s, SortedSet.mem_insert.2 (.inr hs), hprefix⟩

theorem project_insert {selected : PropertyId} (h : BeneathAny ids selected) (r : Resource) :
    r.project (ids.insert selected) = r.project ids := by
  rw [project, isSelected_insert h, project]

/-- Containment is the order of segments by their beginnings, and a partial order.  A projection
keeps the properties that are beneath one of the ids, with their values; two projections keep those
that are beneath one of either set; and an id that is beneath another one changes nothing. -/
theorem isWithin_order_projects :
    (∀ a b : String, PropertyId.isWithin ⟨a⟩ b = true ↔
      PropertyId.segments b <+: PropertyId.segments a) ∧
    (IsPartialOrder PropertyId fun a b => a.isWithin b.text = true) ∧
    (∀ (r : Resource) ids, (r.project ids).type = r.type ∧ ∀ id value,
      (r.project ids).value? id = some value ↔
        r.value? id = some value ∧ BeneathAny ids id) ∧
    (∀ (r : Resource) ids ids' id value, ((r.project ids).project ids').value? id = some value ↔
      r.value? id = some value ∧ BeneathAny ids id ∧ BeneathAny ids' id) ∧
    (∀ (r : Resource) ids selected, BeneathAny ids selected →
      r.project (ids.insert selected) = r.project ids) := by
  refine ⟨fun a b => PropertyId.isWithin_iff_segments, PropertyId.isPartialOrder_isWithin,
    fun r ids => ⟨rfl, fun id value => value?_project_eq_some_iff⟩,
    fun r ids ids' id value => ?_, fun r ids selected h => project_insert h r⟩
  rw [value?_project_eq_some_iff, value?_project_eq_some_iff, and_assoc]

/-- A host with metrics, and with another property whose name begins alike. -/
def measuredHost : Resource :=
  ⟨⟨"Host"⟩, .ofList [(⟨"metrics/cpu/load"⟩, .string "high"), (⟨"metrics/disk"⟩, .string "full"),
    (⟨"metrics_age"⟩, .string "old")]⟩

theorem isWithin_order_projects_metrics :
    let metrics : SortedSet PropertyId := .ofList [⟨"metrics"⟩, ⟨"name"⟩]
    let cpu : SortedSet PropertyId := .ofList [⟨"metrics/cpu"⟩]
    BeneathAny metrics ⟨"metrics/cpu"⟩ ∧
      measuredHost.project (metrics.insert ⟨"metrics/cpu"⟩) = measuredHost.project metrics ∧
      (measuredHost.project metrics).properties.keys = [⟨"metrics/cpu/load"⟩, ⟨"metrics/disk"⟩] ∧
      ((measuredHost.project metrics).project cpu).value? ⟨"metrics/cpu/load"⟩ =
        some (.string "high") := by
  intro metrics cpu
  have hmetrics : BeneathAny metrics ⟨"metrics/cpu"⟩ :=
    ⟨⟨"metrics"⟩, by decide +kernel, by decide +kernel⟩
  have hload : BeneathAny metrics ⟨"metrics/cpu/load"⟩ ∧ BeneathAny cpu ⟨"metrics/cpu/load"⟩ :=
    ⟨⟨⟨"metrics"⟩, by decide +kernel, by decide +kernel⟩,
      ⟨⟨"metrics/cpu"⟩, by decide +kernel, by decide +kernel⟩⟩
  obtain ⟨-, -, -, htwice, hinsert⟩ := isWithin_order_projects
  exact ⟨hmetrics, hinsert measuredHost metrics _ hmetrics, by decide +kernel,
    (htwice measuredHost metrics cpu _ _).2 ⟨rfl, hload⟩⟩

end Resource
end ResourceQuery
