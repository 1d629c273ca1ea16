import ResourceQuery.Proofs.Text.Pieces
import ResourceQuery.PropertyId

/-!
# Ids and pairs of a category and a name

Reading an id gives a category and a name, and writing these gives the id again.  The pairs that
come out are those whose name is a single segment and whose category, if there is one, is a path
of such segments; from any of these pairs an id is written that reads back as the same pair.  So
well-formed ids and well-formed pairs are two forms of one thing.
-/

namespace ResourceQuery

namespace PropertyId

/-! ## Paths -/

/-- A text between two separators of a well-formed id. -/
structure IsSegment (text : String) : Prop where
  ne_empty : text ≠ ""
  free : separator ∉ text.toList

/-- Segments, at least one, with separators between them. -/
def IsPath (text : String) : Prop :=
  ∃ segs : List String, segs ≠ [] ∧ (∀ seg ∈ segs, IsSegment seg) ∧
    text = String.intercalate "/" segs

theorem toList_intercalate (segs : List String) :
    (String.intercalate "/" segs).toList = Split.join separator (segs.map String.toList) := by
  rw [Split.join_eq_intercalate, String.toList_intercalate]
  rfl

theorem segments_ne_nil (text : String) : segments text ≠ [] := by
  intro hnil
  exact Split.all_ne_nil separator text.toList (List.map_eq_nil_iff.1 hnil)

/-- The segments of a text make up the text. -/
theorem intercalate_segments (text : String) :
    String.intercalate "/" (segments text) = text := by
  have hpieces : (segments text).map String.toList = Split.all separator text.toList := by
    simp [segments]
  rw [← String.toList_inj, toList_intercalate, hpieces]
  exact Split.join_all separator text.toList

/-- Segments with separators between them are the segments of the whole. -/
theorem segments_intercalate {segs : List String} (hne : segs ≠ [])
    (hsegs : ∀ seg ∈ segs, IsSegment seg) : segments (String.intercalate "/" segs) = segs := by
  have hfree : ∀ piece ∈ segs.map String.toList, separator ∉ piece := by
    intro piece hpiece
    obtain ⟨seg, hseg, rfl⟩ := List.mem_map.1 hpiece
    exact (hsegs seg hseg).free
  have hall : Split.all separator (String.intercalate "/" segs).toList =
      segs.map String.toList := by
    rw [toList_intercalate]
    exact Split.all_join (by simpa using hne) hfree
  rw [segments, hall]
  simp

/-- A text without a separator in front of a path is one segment more. -/
theorem segments_intercalate_cons {seg : String} {segs : List String}
    (hfree : separator ∉ seg.toList) (hne : segs ≠ []) :
    segments (String.intercalate "/" (seg :: segs)) =
      seg :: segments (String.intercalate "/" segs) := by
  obtain ⟨next, rest, rfl⟩ := List.exists_cons_of_ne_nil hne
  have hjoin : Split.join separator ((seg :: next :: rest).map String.toList) =
      seg.toList ++ separator :: Split.join separator ((next :: rest).map String.toList) := rfl
  simp only [segments, toList_intercalate, hjoin, Split.all_append, Split.all_eq_singleton hfree]
  simp

/-- No segment holds a separator, so a text is a path unless one of its segments is empty. -/
theorem isPath_iff {text : String} : IsPath text ↔ ∀ seg ∈ segments text, seg ≠ "" := by
  constructor
  · rintro ⟨segs, hne, hsegs, rfl⟩ seg hseg
    rw [segments_intercalate hne hsegs] at hseg
    exact (hsegs seg hseg).ne_empty
  · intro hsegs
    have hfree : ∀ seg ∈ segments text, separator ∉ seg.toList := by
      intro seg hseg
      obtain ⟨piece, hpiece, rfl⟩ := List.mem_map.1 hseg
      simpa using Split.not_mem_of_mem_all hpiece
    exact ⟨segments text, segments_ne_nil text, fun seg hseg => ⟨hsegs seg hseg, hfree seg hseg⟩,
      (intercalate_segments text).symm⟩

theorem IsPath.ne_empty {text : String} (h : IsPath text) : text ≠ "" := by
  rintro rfl
  exact isPath_iff.1 h "" (by decide) rfl

theorem isPath_iff_not_mem_all {text : String} :
    IsPath text ↔ [] ∉ Split.all separator text.toList := by
  rw [isPath_iff]
  simp only [segments, List.forall_mem_map, ne_eq, String.ofList_eq_empty_iff]
  exact ⟨fun h hnil => h [] hnil rfl, fun h piece hpiece hnil => h (hnil ▸ hpiece)⟩

/-- The ids that are accepted are the paths. -/
theorem parse_eq_ok_iff {text : String} {id : PropertyId} :
    parse text = .ok id ↔ IsPath text ∧ id = ⟨text⟩ := by
  rw [isPath_iff_not_mem_all]
  by_cases hnil : [] ∈ Split.all separator text.toList
  · have hrefused : ∃ fault, parse text = .error fault := by
      unfold parse
      simp only [if_pos hnil]
      split
      · exact ⟨.empty, rfl⟩
      · split
        · exact ⟨.outerSeparator, rfl⟩
        · exact ⟨.emptySegment, rfl⟩
    obtain ⟨fault, hrefused⟩ := hrefused
    simp [hrefused, hnil]
  · -- An empty text and a separator at an end are refused first, but both leave an empty segment.
    have hne : ¬ text.toList.isEmpty = true :=
      fun h => hnil (Split.nil_mem_all_iff.2 (.inl (List.isEmpty_iff.1 h)))
    have houter : ¬ (text.toList.head? = some separator ∨
        text.toList.getLast? = some separator) := by
      rintro (hhead | hlast)
      · exact hnil (Split.nil_mem_all_iff.2 (.inr (.inl hhead)))
      · exact hnil (Split.nil_mem_all_iff.2 (.inr (.inr (.inl hlast))))
    simp only [hnil, not_false_eq_true, true_and]
    unfold parse
    simp only [if_neg hne, if_neg houter, if_neg hnil, Except.ok.injEq]
    exact eq_comm

/-- An id without empty segments is well-formed. -/
theorem parse_of_segments {id : PropertyId} (h : ∀ seg ∈ segments id.text, seg ≠ "") :
    parse id.text = .ok id :=
  parse_eq_ok_iff.2 ⟨isPath_iff.2 h, rfl⟩

/-! ## Pairs -/

/-- A name with the category in which it stands, if it stands in one. -/
structure IsPair (category : Option String) (name : String) : Prop where
  category : ∀ text, category = some text → IsPath text
  name : IsSegment name

theorem encode_some {category : String} (h : category ≠ "") (name : String) :
    encode (some category) name = ⟨category.push separator ++ name⟩ := by
  unfold encode
  split
  · rename_i heq
    cases heq
  · rename_i heq
    exact absurd (Option.some.inj heq) h
  · rename_i heq
    rw [Option.some.inj heq]

/-- The last separator of an id that is written stands in front of its name. -/
theorem split_encode {category : Option String} {name : String} (h : IsPair category name) :
    (encode category name).split = (category, name) := by
  cases category with
  | none =>
    have hnone : Split.last? separator name.toList = none :=
      Split.last?_eq_none_iff.2 h.name.free
    simp [encode, split, hnone]
  | some category =>
    have hcategory := (h.category category rfl).ne_empty
    have hsome : Split.last? separator (category.push separator ++ name).toList =
        some (category.toList, name.toList) := by
      refine Split.last?_eq_some_iff.2 ⟨?_, h.name.free⟩
      simp
    rw [encode_some hcategory, split, hsome]
    simp

/-- An id is written again from its parts, unless its category is there and empty. -/
theorem encode_split {id : PropertyId} (h : id.category ≠ some "") :
    encode id.category id.name = id := by
  unfold category name at *
  unfold split at *
  split
  · rename_i front back hlast
    obtain ⟨htext, -⟩ := Split.last?_eq_some_iff.1 hlast
    have hfront : String.ofList front ≠ "" := by
      intro hempty
      simp [hlast, hempty] at h
    have hid : id.text = (String.ofList front).push separator ++ String.ofList back := by
      rw [← String.toList_inj, htext]
      simp
    rw [encode_some hfront, ← hid]
  · rfl

/-- The parts of a path make up a pair. -/
theorem isPair_of_isPath {id : PropertyId} (h : IsPath id.text) : IsPair id.category id.name := by
  have hsegments := isPath_iff.1 h
  rw [segments_text] at hsegments
  refine ⟨fun category hcategory => ?_, ?_, ?_⟩
  · rw [isPath_iff]
    intro seg hseg
    exact hsegments seg (List.mem_append_left _ (by simpa [hcategory] using hseg))
  · exact hsegments id.name (List.mem_append_right _ (List.mem_singleton_self _))
  · -- A name that held a separator would be two segments or more.
    intro hmem
    have hsingle := congrArg (List.map String.toList) (segments_name id)
    have hpieces : Split.all separator id.name.toList = [id.name.toList] := by
      simpa [segments] using hsingle
    exact Split.not_mem_of_mem_all (hpieces ▸ List.mem_singleton_self id.name.toList) hmem

/-- What is written for a pair is a path. -/
theorem isPath_encode {category : Option String} {name : String} (h : IsPair category name) :
    IsPath (encode category name).text := by
  have hsplit := split_encode h
  rw [isPath_iff, segments_text]
  simp only [PropertyId.category, PropertyId.name, hsplit]
  intro seg hseg
  rcases List.mem_append.1 hseg with hcategory | hname
  · cases category with
    | none => cases hcategory
    | some category => exact isPath_iff.1 (h.category category rfl) seg hcategory
  · rw [List.mem_singleton.1 hname]
    exact h.name.ne_empty

/-- A text reads as a pair exactly when the pair is well-formed and is written as that text. -/
theorem decode_eq_ok_iff {text : String} {category : Option String} {name : String} :
    decode text = .ok (category, name) ↔
      IsPair category name ∧ (encode category name).text = text := by
  have hdecode : decode text = .ok (category, name) ↔
      IsPath text ∧ split ⟨text⟩ = (category, name) := by
    unfold decode
    cases hparse : parse text with
    | error fault =>
      have hrefused : ¬ IsPath text := by
        intro hpath
        rw [parse_eq_ok_iff.2 ⟨hpath, rfl⟩] at hparse
        cases hparse
      simp only [hrefused, false_and, iff_false]
      exact nofun
    | ok id =>
      obtain ⟨hpath, rfl⟩ := parse_eq_ok_iff.1 hparse
      simp only [hpath, true_and]
      exact ⟨Except.ok.inj, congrArg Except.ok⟩
  rw [hdecode]
  constructor
  · rintro ⟨hpath, hsplit⟩
    have hpair := @isPair_of_isPath ⟨text⟩ hpath
    have hne : PropertyId.category ⟨text⟩ ≠ some "" :=
      fun hempty => (hpair.category "" hempty).ne_empty rfl
    have htext := encode_split hne
    simp only [PropertyId.category, PropertyId.name, hsplit] at hpair htext
    exact ⟨hpair, congrArg PropertyId.text htext⟩
  · rintro ⟨hpair, rfl⟩
    exact ⟨isPath_encode hpair, split_encode hpair⟩

/-- Reading inverts writing on well-formed pairs; the texts that can be read are those that are
written for such pairs; and writing inverts reading. -/
theorem decode_encode_bijective :
    (∀ category name, IsPair category name →
      decode (encode category name).text = .ok (category, name)) ∧
    (∀ text, (∃ pair, decode text = .ok pair) ↔
      ∃ category name, IsPair category name ∧ (encode category name).text = text) ∧
    (∀ text category name, decode text = .ok (category, name) →
      (encode category name).text = text) := by
  refine ⟨fun category name hpair => ?_, fun text => ?_, fun text category name hread => ?_⟩
  · exact decode_eq_ok_iff.2 ⟨hpair, rfl⟩
  · constructor
    · rintro ⟨⟨category, name⟩, hread⟩
      exact ⟨category, name, decode_eq_ok_iff.1 hread⟩
    · rintro ⟨category, name, hwritten⟩
      exact ⟨(category, name), decode_eq_ok_iff.2 hwritten⟩
  · exact (decode_eq_ok_iff.1 hread).2

/-- A category of two segments. -/
theorem isPair_cpuLoad : IsPair (some "metrics/cpu") "load" := by
  refine ⟨fun text htext => ?_, by decide, by decide⟩
  obtain rfl := Option.some.inj htext
  exact isPath_iff.2 (by decide +kernel)

theorem decode_encode_cpuLoad : IsPair (some "metrics/cpu") "load" ∧
    decode (encode (some "metrics/cpu") "load").text = .ok (some "metrics/cpu", "load") :=
  ⟨isPair_cpuLoad, decode_encode_bijective.1 (some "metrics/cpu") "load" isPair_cpuLoad⟩

end PropertyId
end ResourceQuery
