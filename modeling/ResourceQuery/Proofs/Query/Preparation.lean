import ResourceQuery.Query.Fetch

/-!
# What selecting leaves alone

Selecting changes the selection of a node and makes its children.  The definition of the node and
its bindings are read and stay as they are; the filter, the page, the key maps and the rows are not
even read.  So a node can be prepared for its read before or after any of these are set.
-/

namespace ResourceQuery

/-- The part of a node that selecting neither reads nor changes. -/
structure NodeRecord where
  baseKeyMap : KeyMap
  exposedAsCollection : Bool
  userPredicate : Option Predicate
  page : Option PageRequest
  keyMaps : SortedSet KeyMap
  rows : List Resource

namespace QueryNode

/-- What selecting leaves alone of a node. -/
def record (n : QueryNode) : NodeRecord :=
  ⟨n.baseKeyMap, n.exposedAsCollection, n.userPredicate, n.page, n.keyMaps, n.rows⟩

/-- The node with another record. -/
def withRecord (n : QueryNode) (r : NodeRecord) : QueryNode :=
  { n with
    baseKeyMap := r.baseKeyMap
    exposedAsCollection := r.exposedAsCollection
    userPredicate := r.userPredicate
    page := r.page
    keyMaps := r.keyMaps
    rows := r.rows }

end QueryNode

namespace Query

/-- The query with another record at its root. -/
def withRecord (r : NodeRecord) (q : Query) : Query := q.mapNode (·.withRecord r)

theorem withRecord_record (q : Query) : q.withRecord q.node.record = q := by
  cases q
  rfl

/-- A change of a query that leaves alone what selecting leaves alone. -/
structure Selects (f : Query → Query) : Prop where
  definition : ∀ q, (f q).node.definition = q.node.definition
  keyMap : ∀ q, (f q).node.keyMap = q.node.keyMap
  withRecord : ∀ r q, f (q.withRecord r) = (f q).withRecord r

namespace Selects

variable {f g : Query → Query}

protected theorem id : Selects fun q => q := ⟨fun _ => rfl, fun _ => rfl, fun _ _ => rfl⟩

theorem comp (hg : Selects g) (hf : Selects f) : Selects fun q => g (f q) where
  definition q := (hg.definition (f q)).trans (hf.definition q)
  keyMap q := (hg.keyMap (f q)).trans (hf.keyMap q)
  withRecord r q := (congrArg g (hf.withRecord r q)).trans (hg.withRecord r (f q))

theorem foldl {α : Type} {f : α → Query → Query} (hf : ∀ a, Selects (f a)) :
    ∀ as : List α, Selects fun q => as.foldl (fun q a => f a q) q
  | [] => .id
  | a :: as => (foldl hf as).comp (hf a)

/-- A choice that the definition and the bindings of a node and its children decide. -/
theorem ite {p : Query → Bool} (hp : ∀ r q, p (q.withRecord r) = p q) (hf : Selects f)
    (hg : Selects g) : Selects fun q => if p q then f q else g q where
  definition q := by
    split
    · exact hf.definition q
    · exact hg.definition q
  keyMap q := by
    split
    · exact hf.keyMap q
    · exact hg.keyMap q
  withRecord r q := by
    rw [hp]
    split
    · exact hf.withRecord r q
    · exact hg.withRecord r q

theorem record (hf : Selects f) (q : Query) : (f q).node.record = q.node.record := by
  have h := hf.withRecord q.node.record q
  rw [withRecord_record] at h
  rw [h]
  rfl

end Selects

/-! ## The ways of selecting -/

variable (c : Cluster) (range : Option TimeRange)

theorem childrenIn_withRecord (r : NodeRecord) (q : Query) :
    (q.withRecord r).childrenIn c = q.childrenIn c := rfl

theorem selectAll_selects : Selects (selectAll c range) :=
  ⟨fun _ => rfl, fun _ => rfl, fun _ _ => rfl⟩

theorem selectLocal_selects (id : PropertyId) : Selects (selectLocal c range id) := by
  simp only [funext (selectLocal_eq c range id)]
  exact ⟨fun _ => rfl, fun _ => rfl, fun _ _ => rfl⟩

/-- Following a name into a child, or else selecting otherwise. -/
theorem selectChild_or_selects (name : String) (f : Query → Query) {g : Query → Query}
    (hg : Selects g) : Selects fun q =>
      match Entries.get? name (q.childrenIn c) with
      | some child => q.selectChild c name (f child)
      | none => g q where
  definition q := by
    split
    · rfl
    · exact hg.definition q
  keyMap q := by
    split
    · rfl
    · exact hg.keyMap q
  withRecord r q := by
    rw [childrenIn_withRecord]
    split
    · rfl
    · exact hg.withRecord r q

theorem selectPath_selects : ∀ path, Selects (selectPath c range path)
  | [] => .id
  | _ :: _ => selectChild_or_selects c _ _ (selectLocal_selects c range _)

theorem selectNamed_selects (name : String) : ∀ path, Selects (selectNamed c range name path)
  | [] => by
    by_cases h : name = PropertyId.wildcard
    · simpa only [selectNamed, h, if_true] using selectAll_selects c range
    · simpa only [selectNamed, h, if_false] using selectPath_selects c range _
  | _ :: _ => by
    refine selectChild_or_selects c _ _ ?_
    split
    · exact selectLocal_selects c range _
    · exact selectLocal_selects c range _

theorem addProperty_selects (category name : Option String) :
    Selects (addProperty c category name range) := by
  unfold addProperty
  split
  · exact .id
  · exact selectPath_selects c range _
  · exact selectNamed_selects c range _ _
  · exact selectNamed_selects c range _ _

theorem addId_selects (id : PropertyId) : Selects (addId c id) :=
  addProperty_selects c none id.category (some id.name)

/-- Which keys are selected is decided by the definition and the bindings. -/
theorem addKeys_selects : Selects (addKeys c) where
  definition q := (Selects.foldl (addId_selects c) _).definition q
  keyMap q := (Selects.foldl (addId_selects c) _).keyMap q
  withRecord r q := (Selects.foldl (addId_selects c) _).withRecord r q

theorem expandDefault_selects : Selects (expandDefault c) :=
  .ite (fun _ _ => rfl) ⟨fun _ => rfl, fun _ => rfl, fun _ _ => rfl⟩ .id

theorem prepare_selects : Selects (prepare c) :=
  (expandDefault_selects c).comp (.ite (fun _ _ => rfl) (addKeys_selects c) .id)

/-! ## What every way of selecting keeps -/

/-- A relation between a query and what becomes of it that holds for each single selection, and
passes from a child to its parent when the child is selected.  It holds for whatever is selected. -/
structure SelectionClosed (R : Query → Query → Prop) : Prop where
  refl (q : Query) : R q q
  trans {q q' q'' : Query} (first : R q q') (second : R q' q'') : R q q''
  selectAll (range : Option TimeRange) (q : Query) : R q (q.selectAll c range)
  selectLocal (range : Option TimeRange) (id : PropertyId) (q : Query) :
    R q (q.selectLocal c range id)
  selectChild {q : Query} {name : String} {old new : Query}
    (get : Entries.get? name (q.childrenIn c) = some old) (change : R old new) :
    R q (q.selectChild c name new)
  selectChildren (q : Query) : R q
    ((q.materialize c).mapNode (·.selectSubResources ((q.childrenIn c).map (·.1))))

namespace SelectionClosed

variable {c} {range} {R : Query → Query → Prop}

theorem selectPath (hR : SelectionClosed c R) :
    ∀ (path : List String) (q : Query), R q (selectPath c range path q)
  | [], q => hR.refl q
  | head :: rest, q => by
    unfold Query.selectPath
    split
    · rename_i child hchild
      exact hR.selectChild hchild (hR.selectPath rest child)
    · exact hR.selectLocal range _ q

theorem selectNamed (hR : SelectionClosed c R) (name : String) :
    ∀ (path : List String) (q : Query), R q (selectNamed c range name path q)
  | [], q => by
    unfold Query.selectNamed
    split
    · exact hR.selectAll range q
    · exact hR.selectPath _ q
  | head :: rest, q => by
    unfold Query.selectNamed
    split
    · rename_i child hchild
      exact hR.selectChild hchild (hR.selectNamed name rest child)
    · simp only
      split
      · exact hR.selectLocal range _ q
      · exact hR.selectLocal range _ q

theorem addProperty (hR : SelectionClosed c R) (category name : Option String) (q : Query) :
    R q (q.addProperty c category name range) := by
  unfold Query.addProperty
  split
  · exact hR.refl q
  · exact hR.selectPath _ q
  · exact hR.selectNamed _ _ q
  · exact hR.selectNamed _ _ q

theorem foldl {α : Type} (hR : SelectionClosed c R) {f : Query → α → Query}
    (hf : ∀ q a, R q (f q a)) (as : List α) (q : Query) : R q (as.foldl f q) := by
  induction as generalizing q with
  | nil => exact hR.refl q
  | cons a as ih => exact hR.trans (hf q a) (ih (f q a))

theorem addFields (hR : SelectionClosed c R) (fields : String) (q : Query) :
    R q ((q.addFields c fields).toOption.getD q) := by
  unfold Query.addFields
  cases FieldList.ofText fields with
  | error e => exact hR.refl q
  | ok selections =>
    have hfield (q : Query) (f : FieldSelection) :
        R q (q.addProperty c f.category (some f.name) f.range) :=
      hR.addProperty f.category (some f.name) q
    exact hR.foldl hfield selections q

theorem prepare (hR : SelectionClosed c R) (q : Query) : R q (q.prepare c) := by
  have hkey (q : Query) (id : PropertyId) : R q (q.addId c id) :=
    hR.addProperty id.category (some id.name) q
  have hkeys : R q (q.addKeys c) := hR.foldl hkey _ q
  have hexpand (q : Query) : R q (q.expandDefault c) := by
    unfold expandDefault
    split
    · exact hR.selectChildren q
    · exact hR.refl q
  unfold Query.prepare
  split
  · exact hR.trans hkeys (hexpand _)
  · exact hexpand q

end SelectionClosed

/-! ## Preparing -/

variable (q : Query)

@[simp] theorem prepare_type : (q.prepare c).node.type = q.node.type :=
  congrArg ResourceDefinition.type ((prepare_selects c).definition q)

@[simp] theorem prepare_keyMap : (q.prepare c).node.keyMap = q.node.keyMap :=
  (prepare_selects c).keyMap q

theorem prepare_record : (q.prepare c).node.record = q.node.record :=
  (prepare_selects c).record q

@[simp] theorem prepare_baseKeyMap : (q.prepare c).node.baseKeyMap = q.node.baseKeyMap :=
  congrArg NodeRecord.baseKeyMap (q.prepare_record c)

@[simp] theorem prepare_userPredicate :
    (q.prepare c).node.userPredicate = q.node.userPredicate :=
  congrArg NodeRecord.userPredicate (q.prepare_record c)

@[simp] theorem prepare_page : (q.prepare c).node.page = q.node.page :=
  congrArg NodeRecord.page (q.prepare_record c)

/-- A change of the record can be made before or after the node is prepared. -/
theorem prepare_withRecord (f : NodeRecord → NodeRecord) :
    (q.withRecord (f q.node.record)).prepare c =
      (q.prepare c).withRecord (f (q.prepare c).node.record) := by
  rw [(prepare_selects c).withRecord, prepare_record]

theorem prepare_addKeyMaps (keyMaps : List KeyMap) :
    (q.addKeyMaps keyMaps).prepare c = (q.prepare c).addKeyMaps keyMaps :=
  q.prepare_withRecord c fun r => { r with keyMaps := r.keyMaps.insertMany keyMaps }

theorem prepare_setPage (page : Option PageRequest) :
    (q.setPage page).prepare c = (q.prepare c).setPage page :=
  q.prepare_withRecord c fun r => { r with page }

end Query
end ResourceQuery
