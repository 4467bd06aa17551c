import Toolpath.Toml.Literal

/-!
# TOML documents

A document is read line by line: a header opens a table, a key with its value is added to the table
that is open. Values may be nested, and an array may run over several lines.

Nesting is limited, so the recursion of values ends by the levels left; everything else ends because
the text gets shorter, which each loop tests for itself.

## Sections

* keys
* values
* lines and documents
-/

namespace Toolpath.Toml

/-- Arrays, tables between braces and keys may be nested less than this deep. -/
def depthLimit : Nat := 80

/-! ## Keys -/

/-- A character of a key without quotes. -/
def isBare (c : Char) : Bool := c.isAlpha || Digits.isDigit c || c == '-' || c == '_'

/-- A key without dots. -/
def simpleKey? : List Char → Reading String
  | '"' :: rest => basicString [] rest
  | '\'' :: rest => literalString [] rest
  | cs =>
    let bare := cs.takeWhile isBare
    if bare.isEmpty then none else some (String.ofList bare, cs.dropWhile isBare)

/-- A key, as the path of its parts; blanks may stand around them. -/
def keyPath (cs : List Char) : Reading (List String) :=
  match simpleKey? (skipBlanks cs) with
  | none => none
  | some (part, rest) =>
    match skipBlanks rest with
    | '.' :: more =>
      if more.length < cs.length then
        (keyPath more).map fun (parts, rest) => (part :: parts, rest)
      else none
    | rest => some ([part], rest)
termination_by cs.length

/-- A key, as the path before its last part and that part. -/
def key? (cs : List Char) : Option ((List String × String) × List Char) := do
  let (parts, rest) ← keyPath cs
  let last ← parts.getLast?
  if parts.length < depthLimit then some ((parts.dropLast, last), rest) else none

/-! ## Values -/

/-- Blanks, comments and ends of lines, which may stand between the items of an array. -/
def filler (cs : List Char) : Option (List Char) :=
  match cs with
  | [] => some []
  | c :: rest =>
    if c == '#' then
      match newline? (rest.dropWhile isPlain) with
      | some left => if left.length < (c :: rest).length then filler left else none
      | none => none
    else if isBlank c then filler rest
    else match newline? (c :: rest) with
      | some left => if left.length < (c :: rest).length then filler left else none
      | none => some (c :: rest)
termination_by cs.length
decreasing_by all_goals (simp_all only [List.length_cons]; try omega)

mutual

/-- A value, with `room` levels of nesting left. -/
def value? (room : Nat) (cs : List Char) : Reading Toml :=
  match cs with
  | '[' :: rest =>
    match room with
    | 0 => none
    | room + 1 => (items? room rest).map fun (vs, rest) => (.array vs, rest)
  | '\x7b' :: rest =>
    match room with
    | 0 => none
    | room + 1 =>
      match skipBlanks rest with
      | '\x7d' :: rest => some (.inlineTable [], rest)
      | rest => (pairs? room [] rest).map fun (es, rest) => (.inlineTable es, rest)
  | 't' :: 'r' :: 'u' :: 'e' :: rest => some (.bool true, rest)
  | 'f' :: 'a' :: 'l' :: 's' :: 'e' :: rest => some (.bool false, rest)
  | '"' :: _ | '\'' :: _ => (string? cs).map fun (s, rest) => (.string s, rest)
  | _ => (moment? cs).or (number? cs)
termination_by (room, 0)

/-- The items of an array up to its end; a comma may stand behind the last. -/
def items? (room : Nat) (cs : List Char) : Reading (List Toml) :=
  match filler cs with
  | none => none
  | some (']' :: rest) => some ([], rest)
  | some start =>
    match value? room start with
    | none => none
    | some (v, rest) =>
      match filler rest with
      | some (']' :: rest) => some ([v], rest)
      | some (',' :: rest) =>
        if rest.length < cs.length then
          (items? room rest).map fun (vs, rest) => (v :: vs, rest)
        else none
      | _ => none
termination_by (room, cs.length + 1)

/-- The keys and values of a table between braces up to its end, added to those before. -/
def pairs? (room : Nat) (es : Entries) (cs : List Char) : Reading Entries :=
  match key? cs with
  | some ((path, key), '=' :: start) =>
    match value? room (skipBlanks start) with
    | none => none
    | some (v, rest) =>
      match es.add path key v, skipBlanks rest with
      | some es, '\x7d' :: rest => some (es, rest)
      | some es, ',' :: rest => if rest.length < cs.length then pairs? room es rest else none
      | _, _ => none
  | _ => none
termination_by (room, cs.length + 1)

end

/-! ## Lines and documents -/

/-- A document so far, and the path of the table that is open. -/
structure OpenDocument where
  root : Entries
  path : List String

/-- The document with one more key in the open table. -/
def OpenDocument.add (d : OpenDocument) (path : List String) (key : String) (v : Toml) :
    Option OpenDocument :=
  (d.root.under (·.add path key v) d.path).map fun root => { d with root := root }

/-- The document with a header's table open. -/
def OpenDocument.openTable (d : OpenDocument) (path : List String) (key : String) :
    Option OpenDocument :=
  (d.root.under (·.openTable key) path).map fun root => ⟨root, path ++ [key]⟩

/-- The document with one more table of an array of tables open. -/
def OpenDocument.openElement (d : OpenDocument) (path : List String) (key : String) :
    Option OpenDocument :=
  (d.root.under (·.openElement key) path).map fun root => ⟨root, path ++ [key]⟩

/-- One header, from behind the brackets that open it. -/
def header? (double : Bool) (d : OpenDocument) (cs : List Char) :
    Option (OpenDocument × List Char) := do
  let ((path, key), rest) ← key? cs
  let rest ← mark? ']' rest
  let rest ← if double then mark? ']' rest else some rest
  let rest ← lineEnd? rest
  let d ← if double then d.openElement path key else d.openTable path key
  return (d, rest)

/-- One key with its value. -/
def pair? (d : OpenDocument) (cs : List Char) : Option (OpenDocument × List Char) := do
  let ((path, key), rest) ← key? cs
  let rest ← mark? '=' rest
  let (v, rest) ← value? (depthLimit - 1) (skipBlanks rest)
  let rest ← lineEnd? rest
  return (← d.add path key v, rest)

/-- One line, or one value over several lines. -/
def line? (d : OpenDocument) (cs : List Char) : Reading OpenDocument :=
  match skipBlanks cs with
  | [] => some (d, [])
  | '#' :: _ | '\n' :: _ | '\r' :: _ => (lineEnd? cs).map fun rest => (d, rest)
  | '[' :: '[' :: rest => header? true d rest
  | '[' :: rest => header? false d rest
  | rest => pair? d rest

/-- The lines of a document, added to what was read before. -/
def lines? (d : OpenDocument) (cs : List Char) : Option Entries :=
  if cs.isEmpty then some d.root
  else match line? d cs with
    | none => none
    | some (d, rest) => if rest.length < cs.length then lines? d rest else none
termination_by cs.length

/-- Read a document. A byte order mark may come first. -/
def read? (text : String) : Option Entries :=
  let cs := text.toList
  lines? ⟨[], []⟩ (if cs.head? = some (Char.ofNat 0xFEFF) then cs.tail else cs)

end Toolpath.Toml
