import Toolpath.FloatScalar
import Toolpath.Settings
import Toolpath.Json.Overlay
import Toolpath.Toml.Document

/-!
# Settings as text

Settings are kept as JSON or as TOML. In either they are a table of two tables, every member of
which may be missing; what is missing has its standard value, what is not known is ignored.

## Sections

* names of the members
* reading and writing JSON
* reading and writing TOML
-/

namespace Toolpath

/-! ## Names -/

/-- The members of a tool, in their order. -/
def Tool.memberNames : List String := ["cutter_diameter", "pocket_overlap", "safe_z", "arc_step"]

/-- The tool with one member changed. -/
def Tool.withMember (t : Tool Float) (name : String) (x : Float) : Tool Float :=
  match name with
  | "cutter_diameter" => { t with cutterDiameter := x }
  | "pocket_overlap" => { t with pocketOverlap := x }
  | "safe_z" => { t with safeZ := x }
  | "arc_step" => { t with arcStep := x }
  | _ => t

/-- The members of a tool with their values. -/
def Tool.members (t : Tool Float) : List (String × Float) :=
  [("cutter_diameter", t.cutterDiameter), ("pocket_overlap", t.pocketOverlap),
    ("safe_z", t.safeZ), ("arc_step", t.arcStep)]

/-- The members of the speeds, in their order. -/
def Feeds.memberNames : List String := ["xy", "z"]

/-- The speeds with one member changed. -/
def Feeds.withMember (f : Feeds Float) (name : String) (x : Float) : Feeds Float :=
  match name with
  | "xy" => { f with xy := x }
  | "z" => { f with z := x }
  | _ => f

/-- The members of the speeds with their values. -/
def Feeds.members (f : Feeds Float) : List (String × Float) := [("xy", f.xy), ("z", f.z)]

namespace Settings

/-- The members of settings, in their order. -/
def memberNames : List String := ["tool", "feeds"]

/-! ## JSON -/

section

open Json

/-- Settings as a value. -/
def toJson (s : Settings Float) : Json :=
  let table (members : List (String × Float)) : Json :=
    .object (members.map fun (name, x) => (name, .real x))
  .object [("tool", table s.tool.members), ("feeds", table s.feeds.members)]

/-- Lay a tool over the one of the settings, or speeds over theirs. -/
def overlayMember : Draft.Assign (Settings Float) := fun name d s =>
  match name with
  | "tool" =>
    (d.overlay Tool.memberNames (fun name d t => d.float.map (t.withMember name)) .standard).map
      fun t => { s with tool := t }
  | "feeds" =>
    (d.overlay Feeds.memberNames (fun name d f => d.float.map (f.withMember name)) .standard).map
      fun f => { s with feeds := f }
  | _ => .ok s

/-- Settings as JSON, over several lines. -/
def jsonText (s : Settings Float) : String := String.ofList (s.toJson.spread 0)

/-- Read settings from JSON. -/
def ofJsonText (text : String) : Except ReadError (Settings Float) :=
  readOverlay (Draft.overlay memberNames overlayMember .standard) text

end

/-! ## TOML -/

/-- A number; a whole one stands for the nearest float. -/
def tomlFloat? : Toml → Option Float
  | .integer n => some (Binary64.nearest (n < 0) n.natAbs 1)
  | .real x => some x
  | _ => none

/-- The members of a table; those of an array are in the order of the names, and a date has none. -/
def tomlMembers? (names : List String) : Toml → Option Toml.Entries
  | .table _ entries | .inlineTable entries => some entries
  | .array items => some (names.zip items)
  | .moment _ => some []
  | _ => none

/-- A record with the members that a table has for its names. -/
def tomlRecord? {σ : Type} (names : List String) (withMember : σ → String → Float → σ) (s : σ)
    (table : Option Toml) : Option σ :=
  match table with
  | none => some s
  | some table => do
    let entries ← tomlMembers? names table
    names.foldlM (fun s name =>
      match entries.get? name with
      | none => some s
      | some v => (tomlFloat? v).map (withMember s name)) s

/-- Settings from the members of a document. -/
def ofToml? (entries : Toml.Entries) : Option (Settings Float) := do
  let tool ← tomlRecord? Tool.memberNames Tool.withMember .standard (entries.get? "tool")
  let feeds ← tomlRecord? Feeds.memberNames Feeds.withMember .standard (entries.get? "feeds")
  return ⟨tool, feeds⟩

/-- One line of a TOML text. -/
def tomlLine (name : String) (x : Float) : List Char :=
  name.toList ++ ' ' :: '=' :: ' ' :: NumberFormat.toml.text x ++ ['\n']

/-- A table of a TOML text. -/
def tomlTable (name : String) (members : List (String × Float)) : List Char :=
  '[' :: name.toList ++ ']' :: '\n' :: members.flatMap fun (name, x) => tomlLine name x

/-- Settings as TOML. -/
def tomlText (s : Settings Float) : String :=
  String.ofList (tomlTable "tool" s.tool.members ++ '\n' :: tomlTable "feeds" s.feeds.members)

/-- Read settings from TOML. -/
def ofTomlText? (text : String) : Option (Settings Float) := (Toml.read? text).bind ofToml?

end Settings

end Toolpath
