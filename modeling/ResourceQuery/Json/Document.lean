import ResourceQuery.Json.Token

/-!
# Documents

A document is JSON text as it was written, before any meaning is given to it: the fields of
an object stand in their written order, repeated names included, a number or string without
a value is kept as such, and every container knows how deep it stands.  What is wrong with a
part of a document only matters to a reader that looks at it.

The module reads documents from tokens and gives them their value as free JSON; `Decode`
reads typed values out of them.
-/

namespace ResourceQuery

/-- JSON text as a tree. -/
inductive Document where
  | null
  | bool (value : Bool)
  /-- A number, with no value when it is out of range. -/
  | number (value : Option Number)
  /-- A string, with no value when a surrogate in it stands alone. -/
  | string (value : Option String)
  /-- An array at a depth of nesting; the outermost container has depth one. -/
  | array (depth : Nat) (items : List Document)
  /-- An object at a depth of nesting, with its fields as they were written. -/
  | object (depth : Nat) (fields : List (Option String × Document))

namespace Document

/-! ## Reading -/

/-- A container that is still open, with what was found in it, last part first. -/
inductive Frame where
  /-- An array. -/
  | items (found : List Document)
  /-- An object before a name. -/
  | fields (found : List (Option String × Document))
  /-- An object in which a name waits for its value. -/
  | field (found : List (Option String × Document)) (name : Option String)

/-- What has to come next. -/
inductive Expectation where
  | value
  /-- A value, or the end of an array that has just been opened. -/
  | firstItem
  | name
  /-- The name of a field, or the end of an object that has just been opened. -/
  | firstName
  | colon (name : Option String)
  /-- What may follow a value that is complete. -/
  | after (value : Document)

/-- The state of a reader: the open containers, innermost first, and what comes next. -/
structure Progress where
  /-- The containers that are still open. -/
  frames : List Frame
  expect : Expectation

/-- The first token of a value: a whole value, or the opening of a container. -/
def openValue (frames : List Frame) : Token → Option Progress
  | .null => some ⟨frames, .after .null⟩
  | .bool b => some ⟨frames, .after (.bool b)⟩
  | .number n => some ⟨frames, .after (.number n)⟩
  | .string s => some ⟨frames, .after (.string s)⟩
  | .openArray => some ⟨.items [] :: frames, .firstItem⟩
  | .openObject => some ⟨.fields [] :: frames, .firstName⟩
  | _ => none

/-- End an array. -/
def closeItems (frames : List Frame) (found : List Document) : Progress :=
  ⟨frames, .after (.array (frames.length + 1) found.reverse)⟩

/-- End an object. -/
def closeFields (frames : List Frame) (found : List (Option String × Document)) : Progress :=
  ⟨frames, .after (.object (frames.length + 1) found.reverse)⟩

/-- Go on by one token; `none` when the token cannot stand there. -/
def Progress.step (p : Progress) (token : Token) : Option Progress :=
  match p.expect, token, p.frames with
  | .value, t, frames => openValue frames t
  | .firstItem, .closeArray, .items found :: frames => some (closeItems frames found)
  | .firstItem, t, frames => openValue frames t
  | .name, .string s, frames => some ⟨frames, .colon s⟩
  | .firstName, .string s, frames => some ⟨frames, .colon s⟩
  | .firstName, .closeObject, .fields found :: frames => some (closeFields frames found)
  | .colon name, .colon, .fields found :: frames => some ⟨.field found name :: frames, .value⟩
  | .after v, .comma, .items found :: frames => some ⟨.items (v :: found) :: frames, .value⟩
  | .after v, .comma, .field found name :: frames =>
    some ⟨.fields ((name, v) :: found) :: frames, .name⟩
  | .after v, .closeArray, .items found :: frames => some (closeItems frames (v :: found))
  | .after v, .closeObject, .field found name :: frames =>
    some (closeFields frames ((name, v) :: found))
  | _, _, _ => none

/-- The document that tokens spell, if they spell exactly one. -/
def ofTokens? (tokens : List Token) : Option Document :=
  match tokens.foldlM Progress.step ⟨[], .value⟩ with
  | some ⟨[], .after value⟩ => some value
  | _ => none

/-- The document written in a text. -/
def ofText? (text : String) : Option Document := Token.ofString? text >>= ofTokens?

/-! ## Free values -/

/-- The deepest nesting of containers that is read. -/
def maxDepth : Nat := 127

mutual

/-- The value of a document: everything in it has a value and no container stands too deep;
of two fields with one name the later counts. -/
def toJson? : Document → Option Json
  | .null => some .null
  | .bool b => some (.bool b)
  | .number n => n.map .number
  | .string s => s.map .string
  | .array depth items =>
    if depth ≤ maxDepth then (itemsToJson? items).map .array else none
  | .object depth fields =>
    if depth ≤ maxDepth then (fieldsToJson? fields).map .ofFields else none

/-- The values of the items of an array. -/
def itemsToJson? : List Document → Option (List Json)
  | [] => some []
  | d :: ds => do return (← d.toJson?) :: (← itemsToJson? ds)

/-- The values of the fields of an object. -/
def fieldsToJson? : List (Option String × Document) → Option (List (String × Json))
  | [] => some []
  | (name, d) :: ds => do return (← name, ← d.toJson?) :: (← fieldsToJson? ds)

end

end Document

namespace Json

/-- The value written in a text. -/
def ofText? (text : String) : Option Json := Document.ofText? text >>= Document.toJson?

mutual

/-- A value as a document; its nesting has been checked before and counts as none. -/
def toDocument : Json → Document
  | .null => .null
  | .bool b => .bool b
  | .number n => .number n
  | .string s => .string s
  | .array items => .array 0 (itemsToDocument items)
  | .object fields => .object 0 (fieldsToDocument fields)

/-- The items of an array as documents. -/
def itemsToDocument : List Json → List Document
  | [] => []
  | x :: xs => x.toDocument :: itemsToDocument xs

/-- The fields of an object as documents. -/
def fieldsToDocument : List (String × Json) → List (Option String × Document)
  | [] => []
  | (k, x) :: xs => (some k, x.toDocument) :: fieldsToDocument xs

end

end Json
end ResourceQuery
