import ResourceQuery.Text.Split

/-!
# Property ids

A property id is a path of segments separated by `/`.  Its last segment is the name of the
property; what stands in front of the last separator is its category.  An id is well-formed
when it has segments and none of them is empty.

Besides reading and writing ids the module says when an id lies within a category: when it
is the category or continues it behind a separator.
-/

namespace ResourceQuery

/-- The path of a property. -/
structure PropertyId where
  /-- The segments, with separators between them. -/
  text : String
deriving DecidableEq

namespace PropertyId

instance : Ord PropertyId := ⟨compareOn text⟩

instance : Std.TransOrd PropertyId := inferInstanceAs (Std.TransCmp (compareOn text))

instance : Std.LawfulEqOrd PropertyId where
  eq_of_compare {a b} h := by
    cases a
    cases b
    exact congrArg _ (Std.LawfulEqOrd.eq_of_compare h)

/-- The character between segments. -/
def separator : Char := '/'

/-- The name that stands for every property. -/
def wildcard : String := "*"

/-- Why a text is no well-formed id. -/
inductive Fault where
  | empty
  | outerSeparator
  | emptySegment
deriving DecidableEq

/-- The segments of a path. -/
def segments (path : String) : List String :=
  (Split.all separator path.toList).map String.ofList

/-- The category and the name: the parts before and after the last separator. -/
def split (id : PropertyId) : Option String × String :=
  match Split.last? separator id.text.toList with
  | some (category, name) => (some (String.ofList category), String.ofList name)
  | none => (none, id.text)

/-- What stands before the last separator, if there is one. -/
def category (id : PropertyId) : Option String := id.split.1

/-- What stands after the last separator. -/
def name (id : PropertyId) : String := id.split.2

theorem segments_of_not_mem {path : String} (h : separator ∉ path.toList) :
    segments path = [path] := by
  simp [segments, Split.all_eq_singleton h]

/-- The name is the last segment, and the segments in front of it are those of the category. -/
theorem segments_text (id : PropertyId) :
    segments id.text = (id.category.map segments).getD [] ++ [id.name] := by
  unfold category name split
  split
  · rename_i front back h
    obtain ⟨htext, hback⟩ := Split.last?_eq_some_iff.1 h
    simp [segments, htext, Split.all_append, Split.all_eq_singleton hback]
  · rename_i h
    have hfree : separator ∉ id.text.toList := Split.last?_eq_none_iff.1 h
    simpa using segments_of_not_mem hfree

/-- A name is a single segment. -/
theorem segments_name (id : PropertyId) : segments id.name = [id.name] := by
  refine segments_of_not_mem ?_
  unfold name split
  split
  · rename_i front back h
    simpa using (Split.last?_eq_some_iff.1 h).2
  · rename_i h
    exact Split.last?_eq_none_iff.1 h

/-- The id of a name in a category; an empty category counts as none. -/
def encode (category : Option String) (name : String) : PropertyId :=
  match category with
  | none => ⟨name⟩
  | some "" => ⟨name⟩
  | some category => ⟨category.push separator ++ name⟩

/-- Accept a well-formed id. -/
def parse (text : String) : Except Fault PropertyId :=
  let cs := text.toList
  if cs.isEmpty then .error .empty
  else if cs.head? = some separator ∨ cs.getLast? = some separator then .error .outerSeparator
  else if [] ∈ Split.all separator cs then .error .emptySegment
  else .ok ⟨text⟩

/-- The category and the name of a well-formed id. -/
def decode (text : String) : Except Fault (Option String × String) :=
  return (← parse text).split

/-- Whether the id is the given category or lies beneath it. -/
def isWithin (id : PropertyId) (category : String) : Bool :=
  id.text == category || (category.toList ++ [separator]).isPrefixOf id.text.toList

end PropertyId

/-- A text that was to be a property id and is none. -/
structure InvalidPropertyId where
  id : String
  fault : PropertyId.Fault
deriving DecidableEq

namespace InvalidPropertyId

/-- The fault in words. -/
def reason (e : InvalidPropertyId) : String :=
  match e.fault with
  | .empty => "empty id"
  | .outerSeparator => "leading or trailing separator"
  | .emptySegment => "empty segment"

/-- The stable name of this kind of error. -/
def code : String := "CLUSTERQ_INVALID_PROPERTY_ID"

/-- The error in words. -/
def message (e : InvalidPropertyId) : String :=
  "Invalid property id '" ++ e.id ++ "': " ++ e.reason

end InvalidPropertyId

/-- Accept a well-formed id, naming the text that is refused. -/
def PropertyId.ofText (text : String) : Except InvalidPropertyId PropertyId :=
  (PropertyId.parse text).mapError (⟨text, ·⟩)

end ResourceQuery
