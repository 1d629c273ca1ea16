import ResourceQuery.Json.Numeral

/-!
# Tokens of JSON text

White space separates tokens and is dropped.  A number or a string can be well-formed
without denoting a value: a number may be out of the range of doubles, a string may hold half
of a surrogate pair.  Such a token is kept, with no value, because a reader may skip the
place where it stands.
-/

namespace ResourceQuery

/-- A token of JSON text. -/
inductive Token where
  | null
  | bool (value : Bool)
  /-- A number, with no value when it is out of range. -/
  | number (value : Option Number)
  /-- A string, with no value when a surrogate in it stands alone. -/
  | string (value : Option String)
  | openArray
  | closeArray
  | openObject
  | closeObject
  | colon
  | comma

namespace Token

/-- A piece of a string: a character, or a unit of sixteen bits written as an escape. -/
inductive Piece where
  | char (c : Char)
  /-- An escaped unit. -/
  | unit (n : Nat)

/-- The value of a hexadecimal digit. -/
def hexValue? (c : Char) : Option Nat :=
  if c.isDigit then some (c.toNat - '0'.toNat)
  else if 'a' ≤ c ∧ c ≤ 'f' then some (c.toNat - 'a'.toNat + 10)
  else if 'A' ≤ c ∧ c ≤ 'F' then some (c.toNat - 'A'.toNat + 10)
  else none

/-- The unit written as four hexadecimal digits. -/
def hexUnit? (a b c d : Char) : Option Nat := do
  return (((← hexValue? a) * 16 + (← hexValue? b)) * 16 + (← hexValue? c)) * 16 + (← hexValue? d)

/-- The character for which a letter after a backslash stands. -/
def unescape? : Char → Option Char
  | '"' => some '"'
  | '\\' => some '\\'
  | '/' => some '/'
  | 'b' => some '\x08'
  | 'f' => some '\x0c'
  | 'n' => some '\n'
  | 'r' => some '\r'
  | 't' => some '\t'
  | _ => none

/-- The pieces of a string up to its closing quote, last piece first, and what follows. -/
def pieces? (found : List Piece) : List Char → Option (List Piece × List Char)
  | '"' :: cs => some (found, cs)
  | '\\' :: 'u' :: a :: b :: c :: d :: cs =>
    match hexUnit? a b c d with
    | some n => pieces? (.unit n :: found) cs
    | none => none
  | '\\' :: e :: cs =>
    match unescape? e with
    | some c => pieces? (.char c :: found) cs
    | none => none
  | c :: cs => if c.toNat < 32 ∨ c = '\\' then none else pieces? (.char c :: found) cs
  | [] => none

theorem length_lt_of_pieces? {found : List Piece} {cs : List Char} {r : List Piece × List Char}
    (h : pieces? found cs = some r) : r.2.length < cs.length := by
  fun_induction pieces? found cs with
  | case1 found cs =>
    cases h
    exact Nat.lt_succ_self _
  | case2 found a b c d cs n hn ih =>
    have := ih h
    simp only [List.length_cons]
    omega
  | case3 => simp at h
  | case4 found e cs _ c hc ih =>
    have := ih h
    simp only [List.length_cons]
    omega
  | case5 => simp at h
  | case6 => simp at h
  | case7 found c cs _ _ _ _ ih =>
    have := ih h
    simp only [List.length_cons]
    omega
  | case8 => simp at h

/-- Whether a unit is the first half of a surrogate pair. -/
def isHigh (n : Nat) : Bool := 0xD800 ≤ n && n < 0xDC00

/-- Whether a unit is the second half of a surrogate pair. -/
def isLow (n : Nat) : Bool := 0xDC00 ≤ n && n < 0xE000

/-- The characters of the pieces; `none` when half a pair stands alone. -/
def join? : List Piece → Option (List Char)
  | [] => some []
  | .char c :: ps => (join? ps).map (c :: ·)
  | .unit n :: .unit m :: ps =>
    if isHigh n then
      if isLow m then
        (join? ps).map (Char.ofNat (0x10000 + (n - 0xD800) * 0x400 + (m - 0xDC00)) :: ·)
      else none
    else if isLow n then none
    else (join? (.unit m :: ps)).map (Char.ofNat n :: ·)
  | .unit n :: ps => if isHigh n || isLow n then none else (join? ps).map (Char.ofNat n :: ·)

/-- The value of the pieces of a string, given last piece first. -/
def stringOf (found : List Piece) : Option String := (join? found.reverse).map String.ofList

/-- White space between tokens. -/
def isSpace (c : Char) : Bool := c = ' ' || c = '\n' || c = '\t' || c = '\x0d'

/-- The characters that numbers are made of. -/
def isNumeric (c : Char) : Bool := c.isDigit || c = '-' || c = '+' || c = '.' || c = 'e' || c = 'E'

/-- The tokens of a text, added in front of those found before; `none` when some part of it
is no token. -/
def scan? (found : List Token) (cs : List Char) : Option (List Token) :=
  match cs with
  | [] => some found
  | '[' :: cs => scan? (.openArray :: found) cs
  | ']' :: cs => scan? (.closeArray :: found) cs
  | '\x7b' :: cs => scan? (.openObject :: found) cs
  | '\x7d' :: cs => scan? (.closeObject :: found) cs
  | ':' :: cs => scan? (.colon :: found) cs
  | ',' :: cs => scan? (.comma :: found) cs
  | 'n' :: 'u' :: 'l' :: 'l' :: cs => scan? (.null :: found) cs
  | 't' :: 'r' :: 'u' :: 'e' :: cs => scan? (.bool true :: found) cs
  | 'f' :: 'a' :: 'l' :: 's' :: 'e' :: cs => scan? (.bool false :: found) cs
  | '"' :: cs =>
    match _h : pieces? [] cs with
    | some r => scan? (.string (stringOf r.1) :: found) r.2
    | none => none
  | c :: cs =>
    if isSpace c then scan? found cs
    else if c = '-' ∨ c.isDigit then
      match Numeral.ofChars? (c :: cs.takeWhile isNumeric) with
      | some numeral => scan? (.number numeral.value? :: found) (cs.dropWhile isNumeric)
      | none => none
    else none
termination_by cs.length
decreasing_by
  all_goals simp only [List.length_cons]
  all_goals try omega
  · have := length_lt_of_pieces? ‹pieces? [] cs = some r›
    omega
  · have := (List.dropWhile_sublist isNumeric (l := cs)).length_le
    omega

/-- The tokens of a text. -/
def ofString? (s : String) : Option (List Token) := (scan? [] s.toList).map List.reverse

end Token
end ResourceQuery
