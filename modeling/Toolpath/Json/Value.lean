import Toolpath.Number.Shortest

/-!
# JSON values

Values of the data format, and their text. Objects keep their fields in order; a number is either a
whole number or a float.

## Sections

* values
* strings: which characters are escaped
* the two texts of a value: on one line, and set out over several
-/

namespace Toolpath

/-- A JSON value. -/
inductive Json where
  | null
  | bool (b : Bool)
  | integer (n : Int)
  | real (x : Float)
  | string (s : String)
  | array (items : List Json)
  | object (fields : List (String × Json))

namespace Json

/-- The value of a field; of several of one name, the last. -/
def field? (name : String) : Json → Option Json
  | .object fields => (fields.reverse.find? fun f => f.1 == name).map (·.2)
  | _ => none

/-! ## Strings -/

/-- A digit in base sixteen. -/
def hexDigit (d : Nat) : Char := if d < 10 then Char.ofNat (48 + d) else Char.ofNat (87 + d)

/-- A character between quotes: quotes, backslashes and control characters are escaped. -/
def escaped (c : Char) : List Char :=
  if c = '"' then ['\\', '"']
  else if c = '\\' then ['\\', '\\']
  else if c.toNat = 8 then ['\\', 'b']
  else if c.toNat = 12 then ['\\', 'f']
  else if c = '\n' then ['\\', 'n']
  else if c = '\r' then ['\\', 'r']
  else if c = '\t' then ['\\', 't']
  else if c.toNat < 32 then
    ['\\', 'u', '0', '0', hexDigit (c.toNat / 16), hexDigit (c.toNat % 16)]
  else [c]

/-- A string between quotes. -/
def quoted (s : String) : List Char := '"' :: s.toList.flatMap escaped ++ ['"']

/-! ## Numbers -/

/-- A whole number. -/
def integerText (n : Int) : List Char := Exact.sign (n < 0) ++ Digits.ofNat n.natAbs

/-- A float; what is not finite has no number text and becomes null. -/
def realText (x : Float) : List Char :=
  if x.isFinite then NumberFormat.json.text x else ['n', 'u', 'l', 'l']

/-- The text of a truth value. -/
def boolText (b : Bool) : List Char :=
  if b then ['t', 'r', 'u', 'e'] else ['f', 'a', 'l', 's', 'e']

/-! ## Texts of values -/

mutual

/-- A value on one line. -/
def compact : Json → List Char
  | .null => ['n', 'u', 'l', 'l']
  | .bool b => boolText b
  | .integer n => integerText n
  | .real x => realText x
  | .string s => quoted s
  | .array items => '[' :: compactItems items ++ [']']
  | .object fields => '\x7b' :: compactFields fields ++ ['\x7d']

/-- Items with commas between them. -/
def compactItems : List Json → List Char
  | [] => []
  | [v] => compact v
  | v :: rest => compact v ++ ',' :: compactItems rest

/-- Fields with commas between them. -/
def compactFields : List (String × Json) → List Char
  | [] => []
  | [(name, v)] => quoted name ++ ':' :: compact v
  | (name, v) :: rest => quoted name ++ ':' :: compact v ++ ',' :: compactFields rest

end

/-- A new line at a depth of nesting, two blanks for each level. -/
def newLine (depth : Nat) : List Char := '\n' :: List.replicate (2 * depth) ' '

mutual

/-- A value set out over several lines, one for each item or field. -/
def spread (depth : Nat) : Json → List Char
  | .array [] => ['[', ']']
  | .array items => '[' :: spreadItems (depth + 1) items ++ newLine depth ++ [']']
  | .object [] => ['\x7b', '\x7d']
  | .object fields => '\x7b' :: spreadFields (depth + 1) fields ++ newLine depth ++ ['\x7d']
  | v => compact v

/-- Items, each on a line of its own. -/
def spreadItems (depth : Nat) : List Json → List Char
  | [] => []
  | [v] => newLine depth ++ spread depth v
  | v :: rest => newLine depth ++ spread depth v ++ ',' :: spreadItems depth rest

/-- Fields, each on a line of its own. -/
def spreadFields (depth : Nat) : List (String × Json) → List Char
  | [] => []
  | [(name, v)] => newLine depth ++ quoted name ++ ':' :: ' ' :: spread depth v
  | (name, v) :: rest =>
    newLine depth ++ quoted name ++ ':' :: ' ' :: spread depth v ++ ',' :: spreadFields depth rest

end

/-- The text of a value on one line. -/
def text (v : Json) : String := String.ofList v.compact

end Json

end Toolpath
