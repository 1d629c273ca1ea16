import Mathlib.Data.List.ReduceOption
import ResourceQuery.Proofs.FieldList.Cutting
import ResourceQuery.Proofs.PropertyId.Encoding
import ResourceQuery.Proofs.Text.Integer
import ResourceQuery.Proofs.Text.Trim
import ResourceQuery.Query.Error

/-!
# The grammar of field lists

A field list is made of entries with commas between them.  An entry is white space, or a field with
white space around it; a field is a path, with or without a time range in brackets behind it:

    list   ::=  entry  |  entry , list
    entry  ::=  blank*  |  blank* field blank*
    field  ::=  path  |  path [ values ]
    values ::=  integer  |  integer , integer  |  integer , integer , integer

The list is read by cutting it at the commas outside brackets, and each piece is looked through
again for its brackets.  This finds the entries of the list wherever there are any, and refuses
every text that is no field list.
-/

namespace ResourceQuery
namespace FieldList

/-! ## The grammar -/

/-- A path that stands for a name, in a category if it has a separator. -/
inductive Names : List Char → Option String → String → Prop where
  | bare {name : String} (last : PropertyId.separator ∉ name.toList) : Names name.toList none name
  | within {category name : String} (last : PropertyId.separator ∉ name.toList) :
      Names (category.toList ++ PropertyId.separator :: name.toList) (some category) name

/-- A path of plain characters, with its category and its name. -/
structure IsPath (path : List Char) (category : Option String) (name : String) : Prop where
  plain : ∀ c ∈ path, IsPlain c
  names : Names path category name
  ne_empty : name ≠ ""

/-- An integer of 64 bits, with white space around it. -/
def IsInteger (cs : List Char) (z : Int) : Prop :=
  ∃ digits, Trims cs digits ∧ Integer.IsSigned64 digits z

/-- One to three integers that give a time range: the start, the end and the step. -/
inductive IsRange : List Int → TimeRange → Prop where
  | start {first : Int} (hfirst : TimeRange.isTime first = true) :
      IsRange [first] ⟨first, none, none⟩
  | stop {first last : Int} (hfirst : TimeRange.isTime first = true)
      (hlast : TimeRange.isTime last = true) : IsRange [first, last] ⟨first, some last, none⟩
  | step {first last : Int} (hfirst : TimeRange.isTime first = true)
      (hlast : TimeRange.isTime last = true) (step : Nat) :
      IsRange [first, last, step] ⟨first, some last, some step⟩

/-- A path, or a path with a time range behind it. -/
inductive IsField : List Char → FieldSelection → Prop where
  | whole {path : List Char} {category : Option String} {name : String}
      (hpath : IsPath path category name) : IsField path ⟨category, name, none⟩
  | ranged {path : List Char} {category : Option String} {name : String}
      {values : List (List Char)} {integers : List Int} {range : TimeRange}
      (hpath : IsPath path category name) (hvalues : List.Forall₂ IsInteger values integers)
      (hrange : IsRange integers range) :
      IsField (path ++ '[' :: ([','].intercalate values ++ [']'])) ⟨category, name, some range⟩

/-- White space, or a field with white space around it. -/
inductive IsEntry : List Char → Option FieldSelection → Prop where
  | blank {cs : List Char} (htrims : Trims cs []) : IsEntry cs none
  | field {cs text : List Char} {f : FieldSelection} (htrims : Trims cs text)
      (hfield : IsField text f) : IsEntry cs (some f)

/-- Entries, at least one, with commas between them; what is selected are their fields in order. -/
def IsFieldList (text : String) (fields : List FieldSelection) : Prop :=
  ∃ entries found, entries ≠ [] ∧ text.toList = [','].intercalate entries ∧
    List.Forall₂ IsEntry entries found ∧ fields = found.reduceOption

variable {path field cs inner : List Char} {category : Option String} {name : String}
  {f : FieldSelection} {found : Option FieldSelection} {range : Option TimeRange} {r : TimeRange}
  {z : Int}

/-! ## Brackets in the grammar -/

/-- A character of a class that brackets and commas do not belong to. -/
theorem isPlain_of_class {p : Char → Bool} {c : Char} (hopen : p '[' = false)
    (hclose : p ']' = false) (hcomma : p ',' = false) (h : p c = true) : IsPlain c := by
  refine ⟨?_, ?_, ?_⟩
  · rintro rfl
    cases hopen.symm.trans h
  · rintro rfl
    cases hclose.symm.trans h
  · rintro rfl
    cases hcomma.symm.trans h

theorem isPlain_of_isBlank {c : Char} (h : isBlank c = true) : IsPlain c :=
  isPlain_of_class (by decide) (by decide) (by decide) h

theorem plain_of_isDecimal {n : Nat} (h : Integer.IsDecimal cs n) : ∀ c ∈ cs, IsPlain c :=
  fun c hc => isPlain_of_class (by decide) (by decide) (by decide) (h.digits c hc)

theorem plain_of_isSigned (h : Integer.IsSigned cs z) : ∀ c ∈ cs, IsPlain c := by
  cases h with
  | bare h => exact plain_of_isDecimal h
  | plus h => exact List.forall_mem_cons.2 ⟨by decide, plain_of_isDecimal h⟩
  | minus h => exact List.forall_mem_cons.2 ⟨by decide, plain_of_isDecimal h⟩

theorem IsInteger.plain (h : IsInteger cs z) : ∀ c ∈ cs, IsPlain c := by
  obtain ⟨digits, ⟨⟨front, back, rfl, hfront, hback⟩, -, -⟩, hsigned, -⟩ := h
  intro c hc
  rcases List.mem_append.1 hc with hc | hc
  · rcases List.mem_append.1 hc with hc | hc
    · exact isPlain_of_isBlank (hfront c hc)
    · exact plain_of_isSigned hsigned c hc
  · exact isPlain_of_isBlank (hback c hc)

theorem mem_intercalate {c : Char} {values : List (List Char)}
    (h : c ∈ [','].intercalate values) : c = ',' ∨ ∃ value ∈ values, c ∈ value := by
  rw [← Split.join_eq_intercalate] at h
  induction values with
  | nil => cases h
  | cons value values ih =>
    cases values with
    | nil => exact .inr ⟨value, List.mem_singleton_self value, h⟩
    | cons next rest =>
      rcases List.mem_append.1 h with h | h
      · exact .inr ⟨value, List.mem_cons_self, h⟩
      · rcases List.mem_cons.1 h with h | h
        · exact .inl h
        · refine (ih h).imp_right ?_
          rintro ⟨value', hvalue', hc⟩
          exact ⟨value', List.mem_cons_of_mem _ hvalue', hc⟩

theorem plain_of_integers {values : List (List Char)} {integers : List Int}
    (h : List.Forall₂ IsInteger values integers) : ∀ value ∈ values, ∀ c ∈ value, IsPlain c :=
  ((List.forall₂_and_left values integers).1
    (h.imp fun _ _ hvalue => ⟨hvalue.plain, hvalue⟩)).1

theorem IsField.runs (h : IsField field f) : Runs 0 field 0 := by
  cases h with
  | whole hpath => exact .of_plain hpath.plain
  | @ranged path category name values integers range hpath hvalues hrange =>
    -- Commas may stand between the integers because a bracket is open there.
    have hinner : Runs 1 ([','].intercalate values) 1 := by
      refine .of_free (fun c hc => ?_) fun _ => Nat.one_ne_zero
      rcases mem_intercalate hc with rfl | ⟨value, hvalue, hc⟩
      · decide
      · have hplain := plain_of_integers hvalues value hvalue c hc
        exact ⟨hplain.1, hplain.2.1⟩
    exact (Runs.of_plain hpath.plain).append (.opening (hinner.append (.closing (.nil 0))))

/-- White space around a text makes no difference to its brackets. -/
theorem runs_iff_of_trims (h : Trims cs field) : Runs 0 cs 0 ↔ Runs 0 field 0 := by
  obtain ⟨⟨front, back, rfl, hfront, hback⟩, -, -⟩ := h
  have hfront : ∀ c ∈ front, IsPlain c := fun c hc => isPlain_of_isBlank (hfront c hc)
  have hback : ∀ c ∈ back, IsPlain c := fun c hc => isPlain_of_isBlank (hback c hc)
  constructor
  · intro hruns
    obtain ⟨last, hruns, hend⟩ := hruns.split
    obtain ⟨first, hstart, hruns⟩ := hruns.split
    obtain rfl := hstart.last_eq hfront
    obtain rfl := hend.last_eq hback
    exact hruns
  · intro hruns
    exact ((Runs.of_plain hfront).append hruns).append (.of_plain hback)

theorem IsEntry.runs (h : IsEntry cs found) : Runs 0 cs 0 := by
  cases h with
  | blank htrims => exact (runs_iff_of_trims htrims).2 (.nil 0)
  | field htrims hfield => exact (runs_iff_of_trims htrims).2 hfield.runs

/-! ## Reading a field -/

theorem split_eq_iff :
    (PropertyId.mk (String.ofList path)).split = (category, name) ↔ Names path category name := by
  unfold PropertyId.split
  simp only [String.toList_ofList]
  constructor
  · intro h
    split at h
    · rename_i front back hlast
      obtain ⟨rfl, hback⟩ := Split.last?_eq_some_iff.1 hlast
      obtain ⟨rfl, rfl⟩ := Prod.mk.inj h
      have hfree : PropertyId.separator ∉ (String.ofList back).toList := by
        rwa [String.toList_ofList]
      have hnames : Names ((String.ofList front).toList ++ PropertyId.separator ::
          (String.ofList back).toList) (some (String.ofList front)) (String.ofList back) :=
        .within hfree
      rwa [String.toList_ofList, String.toList_ofList] at hnames
    · rename_i hlast
      obtain ⟨rfl, rfl⟩ := Prod.mk.inj h
      have hfree : PropertyId.separator ∉ (String.ofList path).toList := by
        rw [String.toList_ofList]
        exact Split.last?_eq_none_iff.1 hlast
      simpa only [String.toList_ofList] using Names.bare hfree
  · rintro (hlast | hlast)
    · rw [Split.last?_eq_none_iff.2 hlast, String.ofList_toList]
    · rw [Split.last?_eq_some_iff.2 ⟨rfl, hlast⟩]
      simp only [String.ofList_toList]

theorem ofSeconds_eq_ok_iff {first : Int} {last : Option Int} {step : Option Nat} :
    rangeOfValues.ofSeconds first last step = .ok r ↔
      (TimeRange.isTime first = true ∧ last.all TimeRange.isTime = true) ∧
        ⟨first, last, step⟩ = r := by
  unfold rangeOfValues.ofSeconds TimeRange.ofSeconds?
  by_cases htimes : (TimeRange.isTime first && last.all TimeRange.isTime) = true
  · simp only [if_pos htimes, Except.ok.injEq]
    exact (and_iff_right (Bool.and_eq_true_iff.1 htimes)).symm
  · simp only [if_neg htimes]
    exact iff_of_false nofun fun h => htimes (Bool.and_eq_true_iff.2 h.1)

theorem rangeOfValues_eq_ok_iff {text : String} {integers : List Int} :
    rangeOfValues text integers = .ok r ↔ IsRange integers r := by
  unfold rangeOfValues
  constructor
  · intro h
    split at h
    · obtain ⟨⟨hfirst, -⟩, rfl⟩ := ofSeconds_eq_ok_iff.1 h
      exact .start hfirst
    · obtain ⟨⟨hfirst, hlast⟩, rfl⟩ := ofSeconds_eq_ok_iff.1 h
      exact .stop hfirst hlast
    · rename_i first last step
      split at h
      · cases h
      · rename_i hstep
        obtain ⟨⟨hfirst, hlast⟩, rfl⟩ := ofSeconds_eq_ok_iff.1 h
        have hnat : ((step.toNat : Nat) : Int) = step := Int.toNat_of_nonneg (by omega)
        have hrange := IsRange.step hfirst hlast step.toNat
        rwa [hnat] at hrange
    · cases h
  · rintro (hfirst | ⟨hfirst, hlast⟩ | ⟨hfirst, hlast, step⟩)
    · exact ofSeconds_eq_ok_iff.2 ⟨⟨hfirst, rfl⟩, rfl⟩
    · exact ofSeconds_eq_ok_iff.2 ⟨⟨hfirst, hlast⟩, rfl⟩
    · have hstep : ¬ (step : Int) < 0 := by omega
      simp only [if_neg hstep, Int.toNat_natCast]
      exact ofSeconds_eq_ok_iff.2 ⟨⟨hfirst, hlast⟩, rfl⟩

theorem isInteger_iff : IsInteger cs z ↔ Integer.signed64 (trim cs) = .ok z := by
  rw [Integer.signed64_eq_ok_iff]
  constructor
  · rintro ⟨digits, htrims, hsigned⟩
    rwa [trim_eq_iff.2 htrims]
  · exact fun h => ⟨trim cs, trims_trim cs, h⟩

theorem parseRange_eq_ok_iff : parseRange inner = .ok r ↔
    ∃ values integers, inner = [','].intercalate values ∧
      List.Forall₂ IsInteger values integers ∧ IsRange integers r := by
  have hread : parseRange inner = .ok r ↔ ∃ integers,
      List.Forall₂ IsInteger (Split.all ',' inner) integers ∧ IsRange integers r := by
    simp only [parseRange, bind_eq_ok_iff, mapError_eq_ok_iff, mapM_eq_ok_iff, ← isInteger_iff,
      rangeOfValues_eq_ok_iff]
  rw [hread]
  constructor
  · rintro ⟨integers, hvalues, hrange⟩
    exact ⟨_, integers, (Split.join_all ',' inner).symm.trans (Split.join_eq_intercalate ..),
      hvalues, hrange⟩
  · rintro ⟨values, integers, rfl, hvalues, hrange⟩
    -- No integer holds a comma, so the values are found again.
    have hne : values ≠ [] := by
      rintro rfl
      cases hvalues
      cases hrange
    have hfree : ∀ value ∈ values, ',' ∉ value := fun value hvalue hmem =>
      (plain_of_integers hvalues value hvalue ',' hmem).2.2 rfl
    rw [← Split.join_eq_intercalate, Split.all_join hne hfree]
    exact ⟨integers, hvalues, hrange⟩

/-- The selection that a path and a time range make. -/
def select (field path : List Char) (range : Option TimeRange) : Except Fault FieldSelection :=
  let (category, name) := (PropertyId.mk (String.ofList path)).split
  if name.isEmpty then .error (.emptyName (String.ofList field)) else .ok ⟨category, name, range⟩

theorem select_eq_ok_iff (hplain : ∀ c ∈ path, IsPlain c) : select field path range = .ok f ↔
    IsPath path f.category f.name ∧ f.range = range := by
  unfold select
  obtain ⟨⟨category, name⟩, hsplit⟩ : ∃ pair, (PropertyId.mk (String.ofList path)).split = pair :=
    ⟨_, rfl⟩
  have hnames {category' : Option String} {name' : String}
      (h : Names path category' name') : category' = category ∧ name' = name :=
    Prod.mk.inj ((split_eq_iff.2 h).symm.trans hsplit)
  rw [hsplit]
  simp only [String.isEmpty_iff]
  split
  · rename_i hempty
    refine iff_of_false nofun ?_
    rintro ⟨hpath, -⟩
    exact hpath.ne_empty ((hnames hpath.names).2.trans hempty)
  · rename_i hne
    constructor
    · rintro ⟨⟩
      exact ⟨⟨hplain, split_eq_iff.1 hsplit, hne⟩, rfl⟩
    · rintro ⟨hpath, rfl⟩
      obtain ⟨rfl, rfl⟩ := hnames hpath.names
      rfl

theorem parseField_of_free (hfree : '[' ∉ field) : parseField field = select field field none := by
  unfold parseField
  rw [Split.first?_eq_none_iff.2 hfree]
  rfl

theorem parseField_of_open {rest : List Char} (hfree : '[' ∉ path) :
    parseField (path ++ '[' :: rest) = match withoutClosing? rest with
      | none => .error .textAfterRange
      | some inner => parseRange inner >>= fun r =>
          select (path ++ '[' :: rest) path (some r) := by
  unfold parseField
  rw [Split.first?_eq_some_iff.2 ⟨rfl, hfree⟩]
  simp only
  cases withoutClosing? rest with
  | none => rfl
  | some inner =>
    simp only
    cases parseRange inner with
    | error fault => rfl
    | ok r => rfl

theorem withoutClosing?_eq_some_iff {rest : List Char} :
    withoutClosing? rest = some inner ↔ rest = inner ++ [']'] := by
  unfold withoutClosing?
  constructor
  · intro h
    split at h
    · rename_i hlast
      obtain ⟨front, rfl⟩ := List.getLast?_eq_some_iff.1 hlast
      simpa using h
    · cases h
  · rintro rfl
    simp

theorem IsPath.not_mem (h : IsPath path category name) : '[' ∉ path := fun hmem =>
  (h.plain '[' hmem).1 rfl

theorem isField_iff : IsField field f ↔
    (IsPath field f.category f.name ∧ f.range = none) ∨
      ∃ path inner r, field = path ++ '[' :: (inner ++ [']']) ∧
        IsPath path f.category f.name ∧ parseRange inner = .ok r ∧ f.range = some r := by
  constructor
  · rintro (hpath | ⟨hpath, hvalues, hrange⟩)
    · exact .inl ⟨hpath, rfl⟩
    · exact .inr ⟨_, _, _, rfl, hpath,
        parseRange_eq_ok_iff.2 ⟨_, _, rfl, hvalues, hrange⟩, rfl⟩
  · obtain ⟨category, name, range⟩ := f
    rintro (⟨hpath, rfl⟩ | ⟨path, inner, r, rfl, hpath, hread, rfl⟩)
    · exact .whole hpath
    · obtain ⟨values, integers, rfl, hvalues, hrange⟩ := parseRange_eq_ok_iff.1 hread
      exact .ranged hpath hvalues hrange

/-- A text that was cut out of a list is read as a field exactly when it is one. -/
theorem parseField_eq_ok_iff (h : Runs 0 field 0) :
    parseField field = .ok f ↔ IsField field f := by
  rw [isField_iff]
  by_cases hopen : '[' ∈ field
  · obtain ⟨path, rest, rfl, hfree⟩ := List.eq_append_cons_of_mem hopen
    obtain ⟨last, hpath, -⟩ := h.split
    have hplain : ∀ c ∈ path, IsPlain c := hpath.plain hfree
    rw [parseField_of_open hfree]
    constructor
    · intro hread
      split at hread
      · cases hread
      · rename_i inner hclosing
        obtain ⟨r, hrange, hselect⟩ := bind_eq_ok_iff.1 hread
        obtain ⟨hpath, hf⟩ := (select_eq_ok_iff hplain).1 hselect
        rw [withoutClosing?_eq_some_iff.1 hclosing]
        exact .inr ⟨path, inner, r, rfl, hpath, hrange, hf⟩
    · rintro (⟨hpath, -⟩ | ⟨path', inner, r, heq, hpath, hrange, hf⟩)
      · exact absurd hopen hpath.not_mem
      · -- The first bracket is the one behind the path.
        have hfirst := Split.first?_eq_some_iff.2 ⟨heq, hpath.not_mem⟩
        rw [Split.first?_eq_some_iff.2 ⟨rfl, hfree⟩] at hfirst
        obtain ⟨rfl, rfl⟩ := Prod.mk.inj (Option.some.inj hfirst)
        rw [withoutClosing?_eq_some_iff.2 rfl]
        exact bind_eq_ok_iff.2 ⟨r, hrange, (select_eq_ok_iff hplain).2 ⟨hpath, hf⟩⟩
  · rw [parseField_of_free hopen, select_eq_ok_iff (h.plain hopen)]
    constructor
    · exact .inl
    · rintro (hwhole | ⟨path, inner, r, rfl, -⟩)
      · exact hwhole
      · exact absurd (List.mem_append_right path List.mem_cons_self) hopen

/-! ## Reading a list -/

theorem Names.eq_empty (h : Names path category name) (hnil : path = []) : name = "" := by
  cases h with
  | bare hlast => exact String.toList_eq_nil_iff.1 hnil
  | within hlast => simp at hnil

theorem not_isField_nil : ¬ IsField [] f := by
  rw [isField_iff]
  rintro (⟨hpath, -⟩ | ⟨path, inner, r, heq, -⟩)
  · exact hpath.ne_empty (hpath.names.eq_empty rfl)
  · simp at heq

theorem isEntry_of_blank (hblank : trim cs = []) : IsEntry cs found ↔ found = none := by
  constructor
  · rintro (_ | ⟨htrims, hfield⟩)
    · rfl
    · rw [← trim_eq_iff.2 htrims, hblank] at hfield
      exact absurd hfield not_isField_nil
  · rintro rfl
    exact .blank (trim_eq_iff.1 hblank)

theorem isEntry_of_runs (h : Runs 0 cs 0) (hne : trim cs ≠ []) :
    IsEntry cs found ↔ ∃ f, found = some f ∧ parseField (trim cs) = .ok f := by
  have htrims : Trims cs (trim cs) := trims_trim cs
  have hread {f : FieldSelection} : parseField (trim cs) = .ok f ↔ IsField (trim cs) f :=
    parseField_eq_ok_iff ((runs_iff_of_trims htrims).1 h)
  constructor
  · rintro (hnil | ⟨htext, hfield⟩)
    · exact absurd (trim_eq_iff.2 hnil) hne
    · rw [← trim_eq_iff.2 htext] at hfield
      exact ⟨_, rfl, hread.2 hfield⟩
  · rintro ⟨f, rfl, hf⟩
    exact .field htrims (hread.1 hf)

/-- The pieces of a list that are not white space are its fields, in order. -/
theorem mapM_parseField_eq_ok_iff {pieces : List (List Char)} {fields : List FieldSelection}
    (h : ∀ piece ∈ pieces, Runs 0 piece 0) :
    ((pieces.map trim).filter (¬ ·.isEmpty)).mapM parseField = .ok fields ↔
      ∃ found, List.Forall₂ IsEntry pieces found ∧ fields = found.reduceOption := by
  rw [mapM_eq_ok_iff]
  induction pieces generalizing fields with
  | nil =>
    constructor
    · rintro ⟨⟩
      exact ⟨[], .nil, rfl⟩
    · rintro ⟨_, ⟨⟩, rfl⟩
      exact .nil
  | cons piece pieces ih =>
    obtain ⟨hpiece, hpieces⟩ := List.forall_mem_cons.1 h
    by_cases hblank : trim piece = []
    · have hfilter : ((piece :: pieces).map trim).filter (¬ ·.isEmpty) =
          (pieces.map trim).filter (¬ ·.isEmpty) := by
        rw [List.map_cons, hblank]
        exact List.filter_cons_of_neg (by decide)
      rw [hfilter, ih hpieces]
      constructor
      · rintro ⟨found, hfound, rfl⟩
        exact ⟨none :: found, .cons ((isEntry_of_blank hblank).2 rfl) hfound,
          (List.reduceOption_cons_of_none found).symm⟩
      · rintro ⟨_, hentries, rfl⟩
        obtain ⟨_, found, hentry, hfound, rfl⟩ := List.forall₂_cons_left_iff.1 hentries
        obtain rfl := (isEntry_of_blank hblank).1 hentry
        exact ⟨found, hfound, List.reduceOption_cons_of_none found⟩
    · have hfilter : ((piece :: pieces).map trim).filter (¬ ·.isEmpty) =
          trim piece :: (pieces.map trim).filter (¬ ·.isEmpty) :=
        List.filter_cons_of_pos (by simpa using hblank)
      rw [hfilter, List.forall₂_cons_left_iff]
      constructor
      · rintro ⟨f, fields, hread, hfields, rfl⟩
        obtain ⟨found, hfound, rfl⟩ := (ih hpieces).1 hfields
        exact ⟨some f :: found, .cons ((isEntry_of_runs hpiece hblank).2 ⟨f, rfl, hread⟩) hfound,
          (List.reduceOption_cons_of_some f found).symm⟩
      · rintro ⟨_, hentries, rfl⟩
        obtain ⟨_, found, hentry, hfound, rfl⟩ := List.forall₂_cons_left_iff.1 hentries
        obtain ⟨f, rfl, hread⟩ := (isEntry_of_runs hpiece hblank).1 hentry
        exact ⟨f, found.reduceOption, hread, (ih hpieces).2 ⟨found, hfound, rfl⟩,
          List.reduceOption_cons_of_some f found⟩

/-- What is read from a text are the fields of the list that it is. -/
theorem parse_eq_ok_iff {text : String} {fields : List FieldSelection} :
    parse text = .ok fields ↔ IsFieldList text fields := by
  unfold parse
  rw [bind_eq_ok_iff]
  constructor
  · rintro ⟨pieces, hcut, hread⟩
    obtain ⟨hne, hruns, hjoin⟩ := cut_eq_ok_iff.1 hcut
    obtain ⟨found, hfound, hfields⟩ := (mapM_parseField_eq_ok_iff hruns).1 hread
    exact ⟨pieces, found, hne, hjoin.trans (Split.join_eq_intercalate ',' pieces), hfound, hfields⟩
  · rintro ⟨entries, found, hne, hjoin, hfound, hfields⟩
    have hruns : ∀ entry ∈ entries, Runs 0 entry 0 :=
      ((List.forall₂_and_left entries found).1
        (hfound.imp fun _ _ hentry => ⟨hentry.runs, hentry⟩)).1
    rw [← Split.join_eq_intercalate] at hjoin
    exact ⟨entries, cut_eq_ok_iff.2 ⟨hne, hruns, hjoin⟩,
      (mapM_parseField_eq_ok_iff hruns).2 ⟨found, hfound, hfields⟩⟩

example : IsFieldList "metrics/cpu[100, 200],,*"
    [⟨some "metrics", "cpu", some ⟨100, some 200, none⟩⟩, ⟨none, "*", none⟩] :=
  parse_eq_ok_iff.1 (by rfl)

/-- A field list gives its fields, and every text that is no field list is refused. -/
theorem ofText_accepts_grammar (text : String) :
    (∀ fields, ofText text = .ok fields ↔ IsFieldList text fields) ∧
      ((∃ reason, ofText text = .error (.invalidFields text reason)) ↔
        ∀ fields, ¬ IsFieldList text fields) := by
  have hok (fields : List FieldSelection) :
      ofText text = .ok fields ↔ IsFieldList text fields := by
    rw [ofText, mapError_eq_ok_iff, parse_eq_ok_iff]
  refine ⟨hok, ?_⟩
  simp only [← hok]
  constructor
  · rintro ⟨reason, herror⟩ fields hfields
    cases herror.symm.trans hfields
  · intro hnone
    cases hread : parse text with
    | error fault => exact ⟨fault.reason, by rw [ofText, hread]; rfl⟩
    | ok fields => exact absurd (by rw [ofText, hread]; rfl) (hnone fields)

end FieldList
end ResourceQuery
