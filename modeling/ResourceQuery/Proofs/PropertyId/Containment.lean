import Mathlib.Order.Defs.Unbundled
import ResourceQuery.Proofs.PropertyId.Encoding

/-!
# Containment by segments

An id lies within a category when its text is the category, or goes on behind it with a
separator.  Segment by segment this says that the segments of the id begin with those of the
category.  A text is made up of its segments, so containment is a partial order as the beginnings
of lists are.
-/

namespace ResourceQuery

namespace PropertyId

/-- An id lies within a category when its segments begin with those of the category. -/
theorem isWithin_iff_segments {id : PropertyId} {category : String} :
    id.isWithin category = true ↔ segments category <+: segments id.text := by
  unfold isWithin segments
  rw [List.prefix_map_iff_of_injective fun _ _ h => String.ofList_injective h,
    Split.all_prefix_all_iff, Bool.or_eq_true, beq_iff_eq, List.isPrefixOf_iff_prefix,
    String.toList_inj]

/-- Different texts have different segments. -/
theorem segments_injective : Function.Injective segments :=
  Function.LeftInverse.injective intercalate_segments

/-- Containment is reflexive, transitive and antisymmetric. -/
theorem isPartialOrder_isWithin :
    IsPartialOrder PropertyId fun a b => a.isWithin b.text = true where
  refl a := isWithin_iff_segments.2 List.prefix_rfl
  trans a b c hab hbc := by
    rw [isWithin_iff_segments] at hab hbc ⊢
    exact hbc.trans hab
  antisymm a b hab hba := by
    rw [isWithin_iff_segments] at hab hba
    have hsegments : segments a.text = segments b.text :=
      hba.eq_of_length_le hab.length_le
    exact congrArg mk (segments_injective hsegments)

end PropertyId
end ResourceQuery
