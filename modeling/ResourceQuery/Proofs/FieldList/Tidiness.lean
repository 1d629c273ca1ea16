import ResourceQuery.Proofs.FieldList.Grammar

/-!
# Clean selections and tidy paths

A selection is clean when its name and its category have no white space at their ends and the id
that is written for them is accepted.  A field is read without white space around it, but the path
in it is cut at its last separator and in front of a bracket after that, and the parts are taken
as they are.  So a selection is clean only if its path is tidy: no separator too many, and no white
space at the cuts.
-/

namespace ResourceQuery

/-! ## White space at the ends -/

/-- A text without white space at its ends. -/
def IsTrimmed (text : String) : Prop :=
  trim text.toList = text.toList
deriving Decidable

theorem isTrimmed_iff {text : String} : IsTrimmed text ↔
    (∀ c ∈ text.toList.head?, isBlank c = false) ∧
      ∀ c ∈ text.toList.getLast?, isBlank c = false := by
  unfold IsTrimmed
  rw [trim_eq_iff]
  constructor
  · exact fun h => ⟨h.head, h.last⟩
  · rintro ⟨hhead, hlast⟩
    exact ⟨⟨[], [], by rw [List.nil_append, List.append_nil], nofun, nofun⟩, hhead, hlast⟩

theorem mem_head?_of_front {front cs : List Char} {c : Char} (h : front <+: cs)
    (hc : c ∈ front.head?) : c ∈ cs.head? := by
  obtain ⟨back, rfl⟩ := h
  rw [List.head?_append, Option.mem_def.1 hc]
  rfl

/-! ## Selections -/

/-- A name and a category without white space at their ends, with an id that is accepted. -/
structure FieldSelection.IsClean (f : FieldSelection) : Prop where
  name : IsTrimmed f.name
  category : ∀ category ∈ f.category, IsTrimmed category
  accepted : ∃ id, PropertyId.parse (PropertyId.encode f.category f.name).text = .ok id

/-- The path of a selection as it is written in a field. -/
def FieldSelection.path (f : FieldSelection) : List Char :=
  match f.category with
  | none => f.name.toList
  | some category => category.toList ++ PropertyId.separator :: f.name.toList

namespace FieldList

open PropertyId (separator)

variable {path cs : List Char} {category name : String} {f : FieldSelection}
  {fields : List FieldSelection}

/-- A path without a separator that follows another one, without one at its beginning unless it is
the only one, and without white space at its end or at its last separator. -/
structure IsTidy (path : List Char) : Prop where
  apart : ¬ [separator, separator] <:+: path
  start : path.head? = some separator → separator ∉ path.tail
  finish : ∀ c ∈ path.getLast?, isBlank c = false
  before : ∀ category name, Names path (some category) name →
    ∀ c ∈ category.toList.getLast?, isBlank c = false
  after : ∀ category name, Names path (some category) name →
    ∀ c ∈ name.toList.head?, isBlank c = false

theorem Names.eq_path (h : Names path f.category f.name) : path = f.path := by
  obtain ⟨category, name, range⟩ := f
  cases h with
  | bare hlast => rfl
  | within hlast => rfl

theorem Names.unique {category category' : Option String} {name name' : String}
    (h : Names path category name) (h' : Names path category' name') :
    category = category' ∧ name = name' :=
  Prod.mk.inj ((split_eq_iff.2 h).symm.trans (split_eq_iff.2 h'))

/-! ## Ids of names without a separator -/

theorem not_twice_of_free (hfree : separator ∉ cs) : ¬ [separator, separator] <:+: cs :=
  fun h => hfree (h.subset List.mem_cons_self)

theorem parse_encode_none (hfree : separator ∉ name.toList) (hne : name ≠ "") :
    PropertyId.parse (PropertyId.encode none name).text = .ok ⟨name⟩ := by
  refine PropertyId.parse_eq_ok_iff.2 ⟨⟨[name], List.cons_ne_nil _ _, ?_, ?_⟩, rfl⟩
  · intro seg hseg
    rw [List.mem_singleton.1 hseg]
    exact ⟨hne, hfree⟩
  · exact String.intercalate_singleton.symm

theorem exists_parse_iff {text : String} : (∃ id, PropertyId.parse text = .ok id) ↔
    [] ∉ Split.all separator text.toList := by
  rw [← PropertyId.isPath_iff_not_mem_all]
  simp only [PropertyId.parse_eq_ok_iff, exists_and_left, exists_eq, and_true]

/-- A separator at the beginning is the only one when the category is empty, and then it is not
written. -/
theorem parse_encode_some_iff (hfree : separator ∉ name.toList) (hne : name ≠ "")
    (hpath : path = category.toList ++ separator :: name.toList) :
    (∃ id, PropertyId.parse (PropertyId.encode (some category) name).text = .ok id) ↔
      ¬ [separator, separator] <:+: path ∧
        (path.head? = some separator → separator ∉ path.tail) := by
  subst hpath
  by_cases hempty : category = ""
  · subst hempty
    refine iff_of_true ⟨⟨name⟩, parse_encode_none hfree hne⟩ ⟨fun htwice => ?_, fun _ => hfree⟩
    rcases List.infix_cons_iff.1 htwice with hfront | hback
    · exact hfree ((List.cons_prefix_cons.1 hfront).2.subset List.mem_cons_self)
    · exact not_twice_of_free hfree hback
  · obtain ⟨c, cs, hcategory⟩ :=
      List.exists_cons_of_ne_nil (mt String.toList_eq_nil_iff.1 hempty)
    have htext : (category.push separator ++ name).toList =
        c :: (cs ++ separator :: name.toList) := by simp [hcategory]
    have hlast : (c :: (cs ++ separator :: name.toList)).getLast? ≠ some separator := by
      rw [← List.cons_append, List.getLast?_append_cons,
        List.getLast?_cons_of_ne_nil (mt String.toList_eq_nil_iff.1 hne)]
      exact fun h => hfree (List.mem_of_getLast? h)
    have htail : separator ∈ cs ++ separator :: name.toList :=
      List.mem_append_right cs List.mem_cons_self
    rw [PropertyId.encode_some hempty, exists_parse_iff, htext, Split.nil_mem_all_iff, hcategory,
      List.cons_append, List.tail_cons]
    simp only [hlast, htail, List.cons_ne_nil, false_or, not_or, not_true_eq_false, imp_false]
    exact and_comm

/-! ## Clean selections -/

/-- A selection is clean exactly when its path is tidy, if that does not begin with white space. -/
theorem isClean_iff_isTidy (hpath : IsPath path f.category f.name)
    (hhead : ∀ c ∈ path.head?, isBlank c = false) : f.IsClean ↔ IsTidy path := by
  obtain ⟨category, name, range⟩ := f
  obtain ⟨-, hnames, hne⟩ := hpath
  dsimp only at hnames hne
  cases hnames with
  | bare hfree =>
    have hnone (category' name' : String) : ¬ Names name.toList (some category') name' :=
      fun h => nomatch (h.unique (.bare hfree)).1
    constructor
    · rintro ⟨hname, -, -⟩
      exact ⟨not_twice_of_free hfree, fun h => absurd (List.mem_of_head? h) hfree,
        (isTrimmed_iff.1 hname).2, fun _ _ h => absurd h (hnone _ _),
        fun _ _ h => absurd h (hnone _ _)⟩
    · intro h
      exact ⟨isTrimmed_iff.2 ⟨hhead, h.finish⟩, nofun, _, parse_encode_none hfree hne⟩
  | @within category name hfree =>
    have hlast : (category.toList ++ separator :: name.toList).getLast? = name.toList.getLast? := by
      rw [List.getLast?_append_cons,
        List.getLast?_cons_of_ne_nil (mt String.toList_eq_nil_iff.1 hne)]
    have hcategory : ∀ c ∈ category.toList.head?, isBlank c = false :=
      fun c hc => hhead c (mem_head?_of_front (List.prefix_append _ _) hc)
    constructor
    · rintro ⟨hname, htrimmed, haccepted⟩
      obtain ⟨hafter, hfinish⟩ := isTrimmed_iff.1 hname
      obtain ⟨-, hbefore⟩ := isTrimmed_iff.1 (htrimmed category rfl)
      obtain ⟨hapart, hstart⟩ := (parse_encode_some_iff hfree hne rfl).1 haccepted
      refine ⟨hapart, hstart, hlast ▸ hfinish, fun category' name' h => ?_,
        fun category' name' h => ?_⟩
      · obtain ⟨⟨⟩, -⟩ := h.unique (.within hfree)
        exact hbefore
      · obtain ⟨-, rfl⟩ := h.unique (.within hfree)
        exact hafter
    · rintro ⟨hapart, hstart, hfinish, hbefore, hafter⟩
      refine ⟨isTrimmed_iff.2 ⟨hafter category name (.within hfree), hlast ▸ hfinish⟩, ?_,
        (parse_encode_some_iff hfree hne rfl).2 ⟨hapart, hstart⟩⟩
      rintro _ ⟨⟩
      exact isTrimmed_iff.2 ⟨hcategory, hbefore category name (.within hfree)⟩

/-! ## Fields of a list -/

/-- Every selection of a list is read from a field in it that does not begin with white space. -/
theorem exists_isField_of_mem {text : String} (h : IsFieldList text fields) (hf : f ∈ fields) :
    ∃ field, field <:+: text.toList ∧ (∀ c ∈ field.head?, isBlank c = false) ∧
      IsField field f := by
  obtain ⟨entries, found, -, htext, hentries, rfl⟩ := h
  obtain ⟨i, hi, hfound⟩ := List.mem_iff_getElem.1 (List.reduceOption_mem_iff.1 hf)
  have hi' : i < entries.length := hentries.length_eq ▸ hi
  have hentry : IsEntry entries[i] found[i] := hentries.get hi' hi
  rw [hfound] at hentry
  cases hentry with
  | field htrims hfield =>
    obtain ⟨⟨front, back, haround, -, -⟩, hhead, -⟩ := htrims
    refine ⟨_, ?_, hhead, hfield⟩
    rw [htext, ← Split.join_eq_intercalate]
    exact List.IsInfix.trans ⟨front, back, haround.symm⟩
      (Split.infix_join_of_mem (List.getElem_mem hi'))

theorem exists_isPath_of_isField {field : List Char} (h : IsField field f) :
    ∃ path, path <+: field ∧ IsPath path f.category f.name := by
  cases h with
  | whole hpath => exact ⟨field, List.prefix_rfl, hpath⟩
  | ranged hpath => exact ⟨_, List.prefix_append _ _, hpath⟩

/-- The path of a selection is a part of the text that was read, and the selection is clean exactly
when that is tidy. -/
theorem ofText_isClean_iff_isTidy {text : String} (h : ofText text = .ok fields) :
    ∀ f ∈ fields, f.path <:+: text.toList ∧ (f.IsClean ↔ IsTidy f.path) := by
  rw [ofText, mapError_eq_ok_iff, parse_eq_ok_iff] at h
  intro f hf
  obtain ⟨field, hinfix, hhead, hfield⟩ := exists_isField_of_mem h hf
  obtain ⟨path, hbegins, hpath⟩ := exists_isPath_of_isField hfield
  have hpathHead : ∀ c ∈ path.head?, isBlank c = false :=
    fun c hc => hhead c (mem_head?_of_front hbegins hc)
  obtain rfl := hpath.names.eq_path
  exact ⟨hbegins.isInfix.trans hinfix, isClean_iff_isTidy hpath hpathHead⟩

/-- A host and a load in their categories, and everything else. -/
def loadFields : List FieldSelection :=
  [⟨some "Hosts", "name", none⟩, ⟨some "metrics/cpu", "load", some ⟨100, none, none⟩⟩,
    ⟨none, "*", none⟩]

/-- All the spaces in this list stand around its fields. -/
theorem loadFields_isTidy :
    ofText "Hosts/name, metrics/cpu/load[100] ,*" = .ok loadFields ∧
      ∀ f ∈ loadFields, IsTidy f.path := by
  have hread : ofText "Hosts/name, metrics/cpu/load[100] ,*" = .ok loadFields := by rfl
  refine ⟨hread, fun f hf => (ofText_isClean_iff_isTidy hread f hf).2.1 ?_⟩
  simp only [loadFields, List.mem_cons, List.not_mem_nil, or_false] at hf
  rcases hf with rfl | rfl | rfl
  · exact ⟨by decide, by decide, _, rfl⟩
  · exact ⟨by decide, by decide, _, rfl⟩
  · exact ⟨by decide, by decide, _, rfl⟩

/-- The space in front of the bracket stays with the name, and one of the two separators with the
category. -/
theorem strays_not_isClean :
    ofText "cpu [100], a//b" =
        .ok [⟨none, "cpu ", some ⟨100, none, none⟩⟩, ⟨some "a/", "b", none⟩] ∧
      ¬ IsTrimmed "cpu " ∧
      ∀ id, PropertyId.parse (PropertyId.encode (some "a/") "b").text ≠ .ok id :=
  ⟨by rfl, by decide, nofun⟩

end FieldList
end ResourceQuery
