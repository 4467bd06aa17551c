/-!
# TOML values

Values of the data format, and how a document grows. A document is a table that headers and keys add
to; whether an addition is allowed depends on how the tables on its way came to be, so every table
remembers that.

## Sections

* values
* additions by key
* additions by header
-/

namespace Toolpath

/-- How a table came to be. -/
inductive Toml.Origin where
  /-- By a header of its own. -/
  | defined
  /-- On the way to a table that has a header. -/
  | implied
  /-- On the way of a key with dots. -/
  | dotted
  deriving DecidableEq, Repr

/-- A TOML value. -/
inductive Toml where
  | integer (n : Int)
  | real (x : Float)
  | bool (b : Bool)
  | string (s : String)
  /-- A date, a time, or both. -/
  | moment (text : String)
  | array (items : List Toml)
  /-- A table between braces. -/
  | inlineTable (entries : List (String × Toml))
  | table (origin : Toml.Origin) (entries : List (String × Toml))
  /-- An array of tables, each with a header; the last comes first. -/
  | tables (items : List (List (String × Toml)))

namespace Toml

/-- The contents of a table. -/
abbrev Entries := List (String × Toml)

/-- The value of a key. -/
def Entries.get? (es : Entries) (key : String) : Option Toml := (es.find? (·.1 == key)).map (·.2)

/-- Give a key a value, in the place of the one it has or else at the end. -/
def Entries.put (es : Entries) (key : String) (v : Toml) : Entries :=
  if es.any (·.1 == key) then es.map fun e => if e.1 == key then (key, v) else e
  else es ++ [(key, v)]

/-! ## Additions by key -/

/-- Add a key that must be new, by a path of keys before it. The tables on the way must have come to
be by such paths or on the way to a header, the one that takes the key by such a path. -/
def Entries.addDotted (key : String) (v : Toml) : List String → Bool → Entries → Option Entries
  | [], takes, es =>
    if takes && (es.get? key).isNone then some (es ++ [(key, v)]) else none
  | step :: path, _, es =>
    match es.get? step with
    | none => (addDotted key v path true []).map fun t => es ++ [(step, .table .dotted t)]
    | some (.table .dotted t) =>
      (addDotted key v path true t).map fun t => es.put step (.table .dotted t)
    | some (.table .implied t) =>
      (addDotted key v path false t).map fun t => es.put step (.table .implied t)
    | some (.tables (t :: before)) =>
      (addDotted key v path false t).map fun t => es.put step (.tables (t :: before))
    | some _ => none

/-- Add a value under a key with or without dots. -/
def Entries.add (path : List String) (key : String) (v : Toml) (es : Entries) : Option Entries :=
  es.addDotted key v path true

/-! ## Additions by header -/

/-- Change the table that a header path leads to, the last of several; tables that are not there
come to be on the way. -/
def Entries.under (change : Entries → Option Entries) : List String → Entries → Option Entries
  | [], es => change es
  | step :: path, es =>
    match es.get? step with
    | none => (under change path []).map fun t => es ++ [(step, .table .implied t)]
    | some (.table origin t) => (under change path t).map fun t => es.put step (.table origin t)
    | some (.tables (t :: before)) =>
      (under change path t).map fun t => es.put step (.tables (t :: before))
    | some _ => none

/-- Open the table of a header. It must not have been opened before. -/
def Entries.openTable (key : String) (es : Entries) : Option Entries :=
  match es.get? key with
  | none => some (es ++ [(key, .table .defined [])])
  | some (.table .implied t) => some (es.put key (.table .defined t))
  | some _ => none

/-- Open one more table of an array of tables. -/
def Entries.openElement (key : String) (es : Entries) : Option Entries :=
  match es.get? key with
  | none => some (es ++ [(key, .tables [[]])])
  | some (.tables ts) => some (es.put key (.tables ([] :: ts)))
  | some _ => none

end Toml

end Toolpath
