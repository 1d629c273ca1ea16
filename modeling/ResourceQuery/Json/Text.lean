import ResourceQuery.Json.Basic
import ResourceQuery.Number.Shortest

/-!
# JSON text

The compact form has no white space.  The indented form puts every item and field on a line
of its own, two spaces deeper than its container.  Both escape in a string only the quote,
the backslash and the characters below the space.
-/

namespace ResourceQuery

/-- The decimal digits of a natural number. -/
def decimalText (n : Nat) : String := String.ofList (Nat.toDigits 10 n)

/-- The text of a number: an integer in decimal digits, a double in the shortest form. -/
def Number.text : Number → String
  | .int i => if i < 0 then "-" ++ decimalText i.natAbs else decimalText i.natAbs
  | .float x => x.text

namespace Json

/-- A digit of a hexadecimal escape. -/
def hexDigit (n : Nat) : Char := Nat.digitChar (n % 16)

/-- A character of a string as it is written. -/
def escape (c : Char) : List Char :=
  if c = '"' then ['\\', '"']
  else if c = '\\' then ['\\', '\\']
  else if c = '\x08' then ['\\', 'b']
  else if c = '\x0c' then ['\\', 'f']
  else if c = '\n' then ['\\', 'n']
  else if c = '\r' then ['\\', 'r']
  else if c = '\t' then ['\\', 't']
  else if c.toNat < 32 then ['\\', 'u', '0', '0', hexDigit (c.toNat / 16), hexDigit c.toNat]
  else [c]

/-- A string between quotes. -/
def quoted (s : String) : String :=
  "\"" ++ String.ofList (s.toList.flatMap escape) ++ "\""

mutual

/-- The compact text of a value. -/
def text : Json → String
  | .null => "null"
  | .bool b => if b then "true" else "false"
  | .number n => n.text
  | .string s => quoted s
  | .array items => "[" ++ String.intercalate "," (itemTexts items) ++ "]"
  | .object fields => "\x7b" ++ String.intercalate "," (fieldTexts fields) ++ "\x7d"

/-- The compact texts of the items of an array. -/
def itemTexts : List Json → List String
  | [] => []
  | x :: xs => x.text :: itemTexts xs

/-- The compact texts of the fields of an object. -/
def fieldTexts : List (String × Json) → List String
  | [] => []
  | (k, x) :: xs => (quoted k ++ ":" ++ x.text) :: fieldTexts xs

end

/-- The start of a line at a depth of nesting. -/
def newLine (depth : Nat) : String := "\n" ++ String.ofList (List.replicate (2 * depth) ' ')

/-- The lines of a container between its brackets; without lines the brackets close up. -/
def bracketed (opening closing : String) (depth : Nat) (lines : List String) : String :=
  if lines.isEmpty then opening ++ closing
  else
    opening ++ newLine (depth + 1) ++
      String.intercalate ("," ++ newLine (depth + 1)) lines ++ newLine depth ++ closing

mutual

/-- The indented text of a value that stands at a depth of nesting. -/
def indentedAt (depth : Nat) : Json → String
  | .null => "null"
  | .bool b => if b then "true" else "false"
  | .number n => n.text
  | .string s => quoted s
  | .array items => bracketed "[" "]" depth (itemLines (depth + 1) items)
  | .object fields => bracketed "\x7b" "\x7d" depth (fieldLines (depth + 1) fields)

/-- The indented texts of the items of an array. -/
def itemLines (depth : Nat) : List Json → List String
  | [] => []
  | x :: xs => x.indentedAt depth :: itemLines depth xs

/-- The indented texts of the fields of an object. -/
def fieldLines (depth : Nat) : List (String × Json) → List String
  | [] => []
  | (k, x) :: xs => (quoted k ++ ": " ++ x.indentedAt depth) :: fieldLines depth xs

end

/-- The indented text of a value. -/
def indented (value : Json) : String := value.indentedAt 0

/-- The text by which a value is compared as a key: a string as it is, other values in
compact form, and nothing for `null`. -/
def keyText : Json → Option String
  | .null => none
  | .string s => some s
  | value => some value.text

end Json
end ResourceQuery
