import Toolpath.Json.Draft

/-!
# Records in JSON

A record is written as an object, or as an array of its fields in their order, of which the last
may be left out. Fields of other names are ignored; a field that comes twice makes the record
unreadable, and so does an array with more items than the record has fields.

A field may be missing if it has a value to fall back on. An optional field may be null.
-/

namespace Toolpath.Json

/-- The fields of a record as they were found. -/
structure Fields where
  /-- Whether the record was an array. -/
  positional : Bool
  /-- The names of the record, each with the value found for it. -/
  entries : List (String × Option Json)

namespace Fields

/-- The fields of a record with these names, if the value can be such a record. -/
def of? (names : List String) : Json → Option Fields
  | .object fields =>
    if names.all fun name => fields.countP (·.1 == name) ≤ 1 then
      some ⟨false, names.map fun name => (name, (fields.find? (·.1 == name)).map (·.2))⟩
    else none
  | .array items =>
    if items.length ≤ names.length then
      some ⟨true, names.mapIdx fun i name => (name, items[i]?)⟩
    else none
  | _ => none

/-- The value found for a field. -/
def get? (fs : Fields) (name : String) : Option Json :=
  (fs.entries.find? (·.1 == name)).bind (·.2)

variable {β : Type}

/-- A field that has to be there. -/
def required (fs : Fields) (name : String) (read : Json → Option β) : Option β :=
  (fs.get? name).bind read

/-- A field with a value to fall back on. -/
def withDefault (fs : Fields) (name : String) (default : β) (read : Json → Option β) : Option β :=
  match fs.get? name with
  | none => some default
  | some v => read v

/-- A field that may be missing or null. -/
def optional (fs : Fields) (name : String) (read : Json → Option β) : Option (Option β) :=
  match fs.get? name with
  | none | some .null => some none
  | some v => (read v).map some

/-- A field that may be null, and may be missing in an object but not in an array. -/
def nullable (fs : Fields) (name : String) (read : Json → Option β) : Option (Option β) :=
  match fs.get? name with
  | none => if fs.positional then none else some none
  | some .null => some none
  | some v => (read v).map some

end Fields

/-! ## Simple values -/

/-- A number, as a float. -/
def float? : Json → Option Float
  | .integer n => some (Binary64.nearest (n < 0) n.natAbs 1)
  | .real x => some x
  | _ => none

/-- A truth value. -/
def bool? : Json → Option Bool
  | .bool b => some b
  | _ => none

/-- A natural number below a bound. -/
def natBelow? (bound : Nat) : Json → Option Nat
  | .integer (.ofNat n) => if n < bound then some n else none
  | _ => none

/-- A natural number of thirty-two bits. -/
def uint32? (v : Json) : Option UInt32 := (natBelow? UInt32.size v).map UInt32.ofNat

/-- A name: a string, or an object whose only field is named so and holds nothing. -/
def name? : Json → Option String
  | .string s => some s
  | .object [(s, .null)] => some s
  | .object [(s, .object [])] => some s
  | _ => none

/-- The items of an array, each read in the same way. -/
def list? {β : Type} (read : Json → Option β) : Json → Option (List β)
  | .array items => items.mapM read
  | _ => none

/-- A value that may be absent, as null. -/
def ofOption {β : Type} (write : β → Json) : Option β → Json
  | none => .null
  | some b => write b

/-- A natural number of thirty-two bits, as a number. -/
def ofUInt32 (n : UInt32) : Json := .integer n.toNat

end Toolpath.Json
