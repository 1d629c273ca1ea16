import ResourceQuery.Proofs.PropertyId.Encoding
import ResourceQuery.Proofs.Query.Basis

/-!
# Where a selection leads

A selection names a path.  As long as its segments are names of children, it goes from child to
child, and then it selects something of the node that it has reached.  Its course holds the
children on the way and what is selected at their end.  The course depends on the names of the
children alone, and no selection makes or drops a name, so what was selected before does not
change where a selection leads.
-/

namespace ResourceQuery

/-- A property, a category, a path or everything that is to be selected, perhaps for a range of
time. -/
structure Selection where
  category : Option String
  name : Option String
  range : Option TimeRange
deriving DecidableEq

/-- What a selection selects of the node that it leads to. -/
inductive Aim where
  /-- Nothing; it ends at a child and selects this child as it is. -/
  | nothing
  /-- Every property and every child. -/
  | all
  | property (id : PropertyId)
deriving DecidableEq

/-- The way of a selection. -/
@[ext] structure Course where
  /-- The names of the children on the way. -/
  path : List String
  aim : Aim
deriving DecidableEq

namespace Course

/-- The course that goes through one more child first. -/
def beneath (name : String) (k : Course) : Course := { k with path := name :: k.path }

end Course

namespace Query

variable {c : Cluster} {q q' : Query} {range : Option TimeRange}

/-! ## Going along a path -/

/-- Select what an aim stands for. -/
def selectAim (c : Cluster) (range : Option TimeRange) : Aim → Query → Query
  | .nothing, q => q
  | .all, q => q.selectAll c range
  | .property id, q => q.selectLocal c range id

/-- Select the children on a path, and change the last of them.  Where the path leaves the children,
nothing happens. -/
def follow (c : Cluster) (f : Query → Query) : List String → Query → Query
  | [], q => f q
  | name :: path, q =>
    match Entries.get? name (q.childrenIn c) with
    | some child => q.selectChild c name (follow c f path child)
    | none => q

theorem follow_cons_of_some {f : Query → Query} {name : String} {path : List String} {child : Query}
    (h : Entries.get? name (q.childrenIn c) = some child) :
    q.follow c f (name :: path) = q.selectChild c name (follow c f path child) := by
  rw [follow, h]

theorem follow_cons_of_none {f : Query → Query} {name : String} {path : List String}
    (h : Entries.get? name (q.childrenIn c) = none) : q.follow c f (name :: path) = q := by
  rw [follow, h]

/-! ## Courses -/

/-- The course of a path. -/
def pathCourse (c : Cluster) : List String → Query → Course
  | [], _ => ⟨[], .nothing⟩
  | head :: rest, q =>
    match Entries.get? head (q.childrenIn c) with
    | some child => (pathCourse c rest child).beneath head
    | none => ⟨[], .property ⟨pathText (head :: rest)⟩⟩

/-- The course of a name beneath a category that is given as a path. -/
def namedCourse (c : Cluster) (name : String) : List String → Query → Course
  | [], q =>
    if name = PropertyId.wildcard then ⟨[], .all⟩ else pathCourse c (PropertyId.segments name) q
  | head :: rest, q =>
    match Entries.get? head (q.childrenIn c) with
    | some child => (namedCourse c name rest child).beneath head
    | none =>
      let category := pathText (head :: rest)
      ⟨[], .property
        (if name = PropertyId.wildcard then ⟨category⟩ else .encode (some category) name)⟩

/-- Where a selection leads when it is made of a query. -/
def course (c : Cluster) (s : Selection) (q : Query) : Course :=
  match s.category.map PropertyId.segments, s.name with
  | none, none => ⟨[], .nothing⟩
  | some path, none => pathCourse c path q
  | none, some name => namedCourse c name [] q
  | some path, some name => namedCourse c name path q

/-- Make a selection. -/
def select (c : Cluster) (s : Selection) (q : Query) : Query :=
  q.addProperty c s.category s.name s.range

/-- Select what a course leads to. -/
def take (c : Cluster) (range : Option TimeRange) (k : Course) (q : Query) : Query :=
  q.follow c (selectAim c range k.aim) k.path

theorem take_beneath {name : String} {k : Course} {child : Query}
    (h : Entries.get? name (q.childrenIn c) = some child) :
    q.take c range (k.beneath name) = q.selectChild c name (child.take c range k) :=
  follow_cons_of_some h

theorem selectPath_eq_take (path : List String) (q : Query) :
    selectPath c range path q = q.take c range (pathCourse c path q) := by
  induction path generalizing q with
  | nil => rfl
  | cons head rest ih =>
    cases h : Entries.get? head (q.childrenIn c) with
    | none => simp only [selectPath, pathCourse, h, take, follow, selectAim]
    | some child => simp only [selectPath, pathCourse, h, take_beneath h, ih]

theorem selectNamed_eq_take (name : String) (path : List String) (q : Query) :
    selectNamed c range name path q = q.take c range (namedCourse c name path q) := by
  induction path generalizing q with
  | nil =>
    by_cases hname : name = PropertyId.wildcard
    · simp only [selectNamed, namedCourse, hname, if_true, take, follow, selectAim]
    · simp only [selectNamed, namedCourse, hname, if_false, selectPath_eq_take]
  | cons head rest ih =>
    cases h : Entries.get? head (q.childrenIn c) with
    | none =>
      by_cases hname : name = PropertyId.wildcard
      · simp only [selectNamed, namedCourse, h, hname, if_true, take, follow, selectAim]
      · simp only [selectNamed, namedCourse, h, hname, if_false, take, follow, selectAim]
    | some child => simp only [selectNamed, namedCourse, h, take_beneath h, ih]

/-- A selection selects the children on its way, and its aim at the end. -/
theorem select_eq_take (s : Selection) (q : Query) :
    q.select c s = q.take c s.range (q.course c s) := by
  obtain ⟨category, name, range⟩ := s
  cases category with
  | none =>
    cases name with
    | none => rfl
    | some name => exact selectNamed_eq_take name [] q
  | some category =>
    cases name with
    | none => exact selectPath_eq_take (PropertyId.segments category) q
    | some name => exact selectNamed_eq_take name (PropertyId.segments category) q

/-! ## Ids -/

theorem pathText_segments (path : String) : pathText (PropertyId.segments path) = path :=
  PropertyId.intercalate_segments path

/-- A path that does not begin with the name of a child leads into none. -/
theorem get?_head_eq_none {segments : List String} {head : String}
    (hhead : ∀ e ∈ q.childrenIn c, segments.head? ≠ some e.1) (h : segments.head? = some head) :
    Entries.get? head (q.childrenIn c) = none :=
  Entries.get?_eq_none_iff.2 fun e he heq => hhead e he (heq ▸ h)

/-- A name is looked for beneath the segments of its category. -/
theorem course_name (category : Option String) (name : String) (q : Query) :
    q.course c ⟨category, some name, range⟩ =
      namedCourse c name ((category.map PropertyId.segments).getD []) q := by
  cases category with
  | none => rfl
  | some category => rfl

/-- A well-formed id that is no wildcard, and whose path begins with no child's name, leads to a
property of the node itself. -/
theorem namedCourse_of_apart {id : PropertyId} (hvalid : PropertyId.parse id.text = .ok id)
    (hname : id.name ≠ PropertyId.wildcard)
    (hhead : ∀ e ∈ q.childrenIn c, (PropertyId.segments id.text).head? ≠ some e.1) :
    namedCourse c id.name ((id.category.map PropertyId.segments).getD []) q =
      ⟨[], .property id⟩ := by
  have hpair := PropertyId.isPair_of_isPath (PropertyId.parse_eq_ok_iff.1 hvalid).1
  have hempty : id.category ≠ some "" := fun h => (hpair.category "" h).ne_empty rfl
  have hsegments := id.segments_text
  have hencode := PropertyId.encode_split hempty
  cases hcategory : id.category with
  | none =>
    rw [hcategory] at hsegments hencode
    have hget : Entries.get? id.name (q.childrenIn c) = none :=
      get?_head_eq_none hhead (by rw [hsegments]; rfl)
    have hid : (⟨id.name⟩ : PropertyId) = id := hencode
    simp only [Option.map_none, Option.getD_none, namedCourse, if_neg hname, id.segments_name,
      pathCourse, hget]
    exact congrArg (fun id => (⟨[], .property id⟩ : Course)) hid
  | some category =>
    rw [hcategory] at hsegments hencode
    obtain ⟨head, rest, hpath⟩ := List.exists_cons_of_ne_nil (PropertyId.segments_ne_nil category)
    rw [Option.map_some, Option.getD_some, hpath] at hsegments
    have hget : Entries.get? head (q.childrenIn c) = none :=
      get?_head_eq_none hhead (by rw [hsegments]; rfl)
    have htext : pathText (head :: rest) = category := hpath ▸ pathText_segments category
    simp only [Option.map_some, Option.getD_some, hpath, namedCourse, hget, if_neg hname, htext,
      hencode]

/-! ## What decides a course -/

/-- The queries have children of the same names, on every level. -/
def SameNames (c : Cluster) (q q' : Query) : Prop :=
  q'.along c (fun _ => ()) = q.along c fun _ => ()

theorem SameNames.get?_eq_none (h : SameNames c q q') {name : String}
    (hname : Entries.get? name (q.childrenIn c) = none) :
    Entries.get? name (q'.childrenIn c) = none := by
  have hpath := congrFun h [name]
  rw [along_cons, along_cons, hname] at hpath
  cases hchild : Entries.get? name (q'.childrenIn c) with
  | none => rfl
  | some child =>
    rw [hchild] at hpath
    cases hpath

/-- A child of one query stands beneath the other one, too, and has children of the same names. -/
theorem SameNames.child (h : SameNames c q q') {name : String} {child : Query}
    (hchild : Entries.get? name (q.childrenIn c) = some child) :
    ∃ child', Entries.get? name (q'.childrenIn c) = some child' ∧ SameNames c child child' := by
  cases hchild' : Entries.get? name (q'.childrenIn c) with
  | none =>
    rw [SameNames.get?_eq_none h.symm hchild'] at hchild
    cases hchild
  | some child' => exact ⟨child', rfl, along_child h hchild hchild'⟩

theorem pathCourse_congr (path : List String) (h : SameNames c q q') :
    pathCourse c path q' = pathCourse c path q := by
  induction path generalizing q q' with
  | nil => rfl
  | cons head rest ih =>
    cases hchild : Entries.get? head (q.childrenIn c) with
    | none => simp only [pathCourse, hchild, h.get?_eq_none hchild]
    | some child =>
      obtain ⟨child', hchild', hsame⟩ := h.child hchild
      simp only [pathCourse, hchild, hchild', ih hsame]

theorem namedCourse_congr (name : String) (path : List String) (h : SameNames c q q') :
    namedCourse c name path q' = namedCourse c name path q := by
  induction path generalizing q q' with
  | nil => simp only [namedCourse, pathCourse_congr _ h]
  | cons head rest ih =>
    cases hchild : Entries.get? head (q.childrenIn c) with
    | none => simp only [namedCourse, hchild, h.get?_eq_none hchild]
    | some child =>
      obtain ⟨child', hchild', hsame⟩ := h.child hchild
      simp only [namedCourse, hchild, hchild', ih hsame]

theorem course_congr (s : Selection) (h : SameNames c q q') : q'.course c s = q.course c s := by
  unfold course
  split
  · rfl
  · exact pathCourse_congr _ h
  · exact namedCourse_congr _ _ h
  · exact namedCourse_congr _ _ h

/-- A selection leaves the names of all children alone. -/
theorem sameNames_select (s : Selection) (q : Query) : SameNames c q (q.select c s) :=
  along_comp (fun _ => ()) ((along_selectionClosed c).addProperty s.category s.name q)

end Query
end ResourceQuery
