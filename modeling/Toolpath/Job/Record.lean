import Toolpath.Job
import Toolpath.FloatScalar
import Toolpath.Json.Record

/-!
# Jobs in JSON

How jobs and their parts are written in JSON and read back. A job is an object with a list of
commands and, if they are not at rest, a start and transforms; or the list of commands alone.

A command carries its own kind in the field `command`, by its two letters, a long name or its
number; in an array the kind comes first.

## Sections

* choices and their names
* positions and transforms
* the five commands
* jobs
-/

namespace Toolpath

open Json

/-! ## Choices -/

namespace Side

/-- The name of a side. -/
def name : Side → String
  | .inside => "inside"
  | .on => "none"
  | .outside => "outside"

/-- The side of a name, or of a letter. -/
def ofName? : String → Option Side
  | "inside" | "I" => some .inside
  | "none" | "T" => some .on
  | "outside" | "O" => some .outside
  | _ => none

/-- Read a side. -/
def ofJson? (v : Json) : Option Side := (name? v).bind ofName?

end Side

namespace Turn

/-- The name of a turn. -/
def name : Turn → String
  | .clockwise => "cw"
  | .counterclockwise => "ccw"

/-- The turn of a short or long name. -/
def ofName? : String → Option Turn
  | "cw" | "clockwise" => some .clockwise
  | "ccw" | "counterclockwise" => some .counterclockwise
  | _ => none

/-- Read a turn. -/
def ofJson? (v : Json) : Option Turn := (name? v).bind ofName?

end Turn

namespace CircleCut

/-- The name of what a circle cuts. -/
def name : CircleCut → String
  | .profile => "profile"
  | .pocket => "pocket"
  | .spiral => "spiral"
  | .spiralWithBottom => "spiral_with_bottom"

/-- What a name says a circle cuts. -/
def ofName? : String → Option CircleCut
  | "profile" => some .profile
  | "pocket" => some .pocket
  | "spiral" => some .spiral
  | "spiral_with_bottom" => some .spiralWithBottom
  | _ => none

/-- Read what a circle cuts. -/
def ofJson? (v : Json) : Option CircleCut := (name? v).bind ofName?

end CircleCut

namespace RectangleCut

/-- The name of how a rectangle is cut. -/
def name : RectangleCut → String
  | .profile => "profile"
  | .pocketOutsideIn => "pocket_outside_in"
  | .pocketInsideOut => "pocket_inside_out"

/-- How a name says a rectangle is cut. -/
def ofName? : String → Option RectangleCut
  | "profile" => some .profile
  | "pocket_outside_in" => some .pocketOutsideIn
  | "pocket_inside_out" => some .pocketInsideOut
  | _ => none

/-- Read how a rectangle is cut. -/
def ofJson? (v : Json) : Option RectangleCut := (name? v).bind ofName?

end RectangleCut

namespace PlungeAxis

/-- The name of an axis. -/
def name : PlungeAxis → String
  | .z => "Z"
  | .a => "A"

/-- The axis of a name. -/
def ofName? : String → Option PlungeAxis
  | "Z" => some .z
  | "A" => some .a
  | _ => none

/-- Read an axis. -/
def ofJson? (v : Json) : Option PlungeAxis := (name? v).bind ofName?

end PlungeAxis

/-- Read an anchor, from its number. -/
def Anchor.ofJson? (v : Json) : Option Anchor := (natBelow? UInt8.size v).bind Anchor.ofNumber?

/-! ## Positions and transforms -/

namespace Position

/-- Write a position. -/
def toJson (p : Position Float) : Json :=
  .object [("x", .real p.x), ("y", .real p.y), ("z", .real p.z)]

/-- Read a position. -/
def ofJson? (v : Json) : Option (Position Float) := do
  let fs ← Fields.of? ["x", "y", "z"] v
  return {
    x := ← fs.required "x" float?
    y := ← fs.required "y" float?
    z := ← fs.required "z" float? }

end Position

namespace Toggle

/-- A toggle that is off. -/
def off : Toggle Float := ⟨false, 0⟩

/-- Write a toggle. -/
def toJson (t : Toggle Float) : Json :=
  .object [("apply", .bool t.apply), ("magnitude", .real t.magnitude)]

/-- Read a toggle. -/
def ofJson? (v : Json) : Option (Toggle Float) := do
  let fs ← Fields.of? ["apply", "magnitude"] v
  return {
    apply := ← fs.required "apply" bool?
    magnitude := ← fs.required "magnitude" float? }

end Toggle

namespace Transforms

/-- Write transforms. -/
def toJson (t : Transforms Float) : Json :=
  .object [("scale", t.scale.toJson), ("shear_x", t.shearX.toJson), ("shear_y", t.shearY.toJson),
    ("level", t.level.toJson)]

/-- Read transforms. -/
def ofJson? (v : Json) : Option (Transforms Float) := do
  let fs ← Fields.of? ["scale", "shear_x", "shear_y", "level"] v
  return {
    scale := ← fs.withDefault "scale" .off Toggle.ofJson?
    shearX := ← fs.withDefault "shear_x" .off Toggle.ofJson?
    shearY := ← fs.withDefault "shear_y" .off Toggle.ofJson?
    level := ← fs.withDefault "level" .off Toggle.ofJson? }

end Transforms

/-! ## Commands -/

namespace Passes

/-- Read how often and how deep a shape is cut. -/
def ofFields? (fs : Fields) : Option (Passes Float) := do
  return {
    plunge := ← fs.withDefault "plunge" 0 float?
    repetitions := ← fs.withDefault "repetitions" 1 uint32?
    stayDown := ← fs.withDefault "no_pull_up" false bool?
    fromZero := ← fs.withDefault "plunge_from_zero" false bool? }

end Passes

/-- Read the proportions of an arc. -/
def proportions? (fs : Fields) : Option (Offset Float) := do
  return {
    x := ← fs.withDefault "prop_x" 1 float?
    y := ← fs.withDefault "prop_y" 1 float? }

namespace ChordArc

/-- The fields of a chord arc, in their order. -/
def fieldNames : List String :=
  ["chord", "height", "compensation", "direction", "angle", "plunge", "repetitions", "prop_x",
    "prop_y", "tabs", "no_pull_up", "plunge_from_zero"]

/-- Write a chord arc. -/
def toFields (a : ChordArc Float) : List (String × Json) :=
  [("chord", ofOption .real a.chord), ("height", ofOption .real a.height),
    ("compensation", .string a.side.name), ("direction", .string a.turn.name),
    ("angle", ofOption .real a.angle), ("plunge", .real a.passes.plunge),
    ("repetitions", ofUInt32 a.passes.repetitions), ("prop_x", .real a.scale.x),
    ("prop_y", .real a.scale.y), ("tabs", ofOption ofUInt32 a.tabs),
    ("no_pull_up", .bool a.passes.stayDown), ("plunge_from_zero", .bool a.passes.fromZero)]

/-- Read a chord arc. -/
def ofJson? (v : Json) : Option (ChordArc Float) := do
  let fs ← Fields.of? fieldNames v
  return {
    chord := ← fs.nullable "chord" float?
    height := ← fs.nullable "height" float?
    side := ← fs.withDefault "compensation" .on Side.ofJson?
    turn := ← fs.withDefault "direction" .clockwise Turn.ofJson?
    angle := ← fs.optional "angle" float?
    passes := ← Passes.ofFields? fs
    scale := ← proportions? fs
    tabs := ← fs.optional "tabs" uint32? }

end ChordArc

namespace Circle

/-- Read what both kinds of circle have. -/
def ofFields? (fs : Fields) : Option (Circle Float) := do
  return {
    diameter := ← fs.nullable "diameter" float?
    side := ← fs.withDefault "compensation" .on Side.ofJson?
    turn := ← fs.withDefault "direction" .clockwise Turn.ofJson?
    startBearing := ← fs.withDefault "start_bearing" 0 float?
    endBearing := ← fs.withDefault "end_bearing" 0 float?
    passes := ← Passes.ofFields? fs
    scale := ← proportions? fs
    cut := ← fs.withDefault "option" .profile CircleCut.ofJson? }

/-- Write the fields behind the diameter and the center. -/
def toFields (c : Circle Float) : List (String × Json) :=
  [("compensation", .string c.side.name), ("direction", .string c.turn.name),
    ("start_bearing", .real c.startBearing), ("end_bearing", .real c.endBearing),
    ("plunge", .real c.passes.plunge), ("repetitions", ofUInt32 c.passes.repetitions),
    ("prop_x", .real c.scale.x), ("prop_y", .real c.scale.y), ("option", .string c.cut.name),
    ("no_pull_up", .bool c.passes.stayDown), ("plunge_from_zero", .bool c.passes.fromZero)]

end Circle

namespace BearingCircle

/-- The fields of a bearing circle, in their order. -/
def fieldNames : List String :=
  ["diameter", "compensation", "direction", "start_bearing", "end_bearing", "plunge", "repetitions",
    "prop_x", "prop_y", "option", "no_pull_up", "plunge_from_zero"]

/-- Write a bearing circle. -/
def toFields (c : BearingCircle Float) : List (String × Json) :=
  ("diameter", ofOption .real c.diameter) :: c.toCircle.toFields

/-- Read a bearing circle. -/
def ofJson? (v : Json) : Option (BearingCircle Float) := do
  let fs ← Fields.of? fieldNames v
  return { toCircle := ← Circle.ofFields? fs }

end BearingCircle

namespace CenterCircle

/-- The fields of a center circle, in their order. -/
def fieldNames : List String :=
  ["diameter", "center_x", "center_y", "compensation", "direction", "start_bearing", "end_bearing",
    "plunge", "repetitions", "prop_x", "prop_y", "option", "no_pull_up", "plunge_from_zero"]

/-- Write a center circle. -/
def toFields (c : CenterCircle Float) : List (String × Json) :=
  ("diameter", ofOption .real c.diameter) :: ("center_x", ofOption .real c.centerX) ::
    ("center_y", ofOption .real c.centerY) :: c.toCircle.toFields

/-- Read a center circle. -/
def ofJson? (v : Json) : Option (CenterCircle Float) := do
  let fs ← Fields.of? fieldNames v
  return {
    toCircle := ← Circle.ofFields? fs
    centerX := ← fs.optional "center_x" float?
    centerY := ← fs.optional "center_y" float? }

end CenterCircle

namespace RelativeArc

/-- The fields of a relative arc, in their order. -/
def fieldNames : List String :=
  ["end_x", "end_y", "center_x", "center_y", "direction", "plunge", "repetitions", "prop_x",
    "prop_y", "option", "no_pull_up", "plunge_from_zero"]

/-- Write a relative arc. -/
def toFields (a : RelativeArc Float) : List (String × Json) :=
  [("end_x", ofOption .real a.endX), ("end_y", ofOption .real a.endY),
    ("center_x", ofOption .real a.centerX), ("center_y", ofOption .real a.centerY),
    ("direction", .string a.turn.name), ("plunge", .real a.passes.plunge),
    ("repetitions", ofUInt32 a.passes.repetitions), ("prop_x", .real a.scale.x),
    ("prop_y", .real a.scale.y), ("option", .string a.cut.name),
    ("no_pull_up", .bool a.passes.stayDown), ("plunge_from_zero", .bool a.passes.fromZero)]

/-- Read a relative arc. -/
def ofJson? (v : Json) : Option (RelativeArc Float) := do
  let fs ← Fields.of? fieldNames v
  return {
    endX := ← fs.optional "end_x" float?
    endY := ← fs.optional "end_y" float?
    centerX := ← fs.nullable "center_x" float?
    centerY := ← fs.nullable "center_y" float?
    turn := ← fs.withDefault "direction" .clockwise Turn.ofJson?
    passes := ← Passes.ofFields? fs
    scale := ← proportions? fs
    cut := ← fs.withDefault "option" .profile CircleCut.ofJson? }

end RelativeArc

namespace Rectangle

/-- The fields of a rectangle, in their order. -/
def fieldNames : List String :=
  ["len_x", "len_y", "compensation", "direction", "start_corner", "plunge", "repetitions", "option",
    "plunge_from_zero", "rotation", "plunge_axis", "spiral_first_pass", "center_x", "center_y",
    "no_pull_up"]

/-- Write a rectangle. -/
def toFields (r : Rectangle Float) : List (String × Json) :=
  [("len_x", ofOption .real r.lenX), ("len_y", ofOption .real r.lenY),
    ("compensation", .string r.side.name), ("direction", .string r.turn.name),
    ("start_corner", .integer r.anchor.number), ("plunge", .real r.passes.plunge),
    ("repetitions", ofUInt32 r.passes.repetitions), ("option", .string r.cut.name),
    ("plunge_from_zero", .bool r.passes.fromZero), ("rotation", .real r.rotation),
    ("plunge_axis", .string r.plungeAxis.name), ("spiral_first_pass", .bool r.rampFirst),
    ("center_x", ofOption .real r.centerX), ("center_y", ofOption .real r.centerY),
    ("no_pull_up", .bool r.passes.stayDown)]

/-- Read a rectangle. -/
def ofJson? (v : Json) : Option (Rectangle Float) := do
  let fs ← Fields.of? fieldNames v
  return {
    lenX := ← fs.nullable "len_x" float?
    lenY := ← fs.nullable "len_y" float?
    side := ← fs.withDefault "compensation" .on Side.ofJson?
    turn := ← fs.withDefault "direction" .clockwise Turn.ofJson?
    anchor := ← fs.withDefault "start_corner" (.corner .fourth) Anchor.ofJson?
    passes := ← Passes.ofFields? fs
    cut := ← fs.withDefault "option" .profile RectangleCut.ofJson?
    rotation := ← fs.withDefault "rotation" 0 float?
    plungeAxis := ← fs.withDefault "plunge_axis" .z PlungeAxis.ofJson?
    rampFirst := ← fs.withDefault "spiral_first_pass" false bool?
    centerX := ← fs.optional "center_x" float?
    centerY := ← fs.optional "center_y" float? }

end Rectangle

namespace CommandKind

/-- The kind that a name selects: the two letters or the long name. -/
def ofName? : String → Option CommandKind
  | "CA" | "chord_arc" => some .chordArc
  | "CC" | "diameter_circle" => some .bearingCircle
  | "CP" | "center_circle" => some .centerCircle
  | "CG" | "arc" => some .arc
  | "CR" | "rectangle" => some .rectangle
  | _ => none

/-- The kinds in the order of their numbers. -/
def all : List CommandKind := [.chordArc, .bearingCircle, .centerCircle, .arc, .rectangle]

/-- Read a kind, from its name or its number. -/
def ofJson? : Json → Option CommandKind
  | .string s => ofName? s
  | .integer (.ofNat n) => all[n]?
  | _ => none

end CommandKind

namespace Command

/-- The field that holds the kind. -/
def kindField : String := "command"

/-- Write a command. -/
def toJson (c : Command Float) : Json :=
  .object ((kindField, .string c.kind.code) :: match c with
    | .chordArc a => a.toFields
    | .bearingCircle c => c.toFields
    | .centerCircle c => c.toFields
    | .arc a => a.toFields
    | .rectangle r => r.toFields)

/-- The kind of a command and what else is written of it. -/
def split? : Json → Option (CommandKind × Json)
  | .object fields =>
    match fields.filter (·.1 == kindField) with
    | [(_, v)] =>
      (CommandKind.ofJson? v).map fun kind => (kind, .object (fields.filter (·.1 != kindField)))
    | _ => none
  | .array (v :: rest) => (CommandKind.ofJson? v).map fun kind => (kind, .array rest)
  | _ => none

/-- Read a command of a known kind. -/
def ofBody? (kind : CommandKind) (body : Json) : Option (Command Float) :=
  match kind with
  | .chordArc => (ChordArc.ofJson? body).map .chordArc
  | .bearingCircle => (BearingCircle.ofJson? body).map .bearingCircle
  | .centerCircle => (CenterCircle.ofJson? body).map .centerCircle
  | .arc => (RelativeArc.ofJson? body).map .arc
  | .rectangle => (Rectangle.ofJson? body).map .rectangle

/-- Read a command. -/
def ofJson? (v : Json) : Option (Command Float) := do
  let (kind, body) ← split? v
  ofBody? kind body

end Command

/-! ## Jobs -/

namespace Job

/-- Where a job starts if it does not say. -/
def origin : Position Float := ⟨0, 0, 0⟩

/-- Write a job. -/
def toJson (job : Job Float) : Json :=
  .object [("start", job.start.toJson), ("transforms", job.transforms.toJson),
    ("commands", .array (job.commands.map Command.toJson))]

/-- Read a job: an object with all of it, or an array of its commands. -/
def ofJson? : Json → Option (Job Float)
  | .array items => (items.mapM Command.ofJson?).map fun commands => ⟨origin, .none, commands⟩
  | .object fields => do
    let fs ← Fields.of? ["start", "transforms", "commands"] (.object fields)
    return {
      start := ← fs.withDefault "start" origin Position.ofJson?
      transforms := ← fs.withDefault "transforms" .none Transforms.ofJson?
      commands := ← fs.required "commands" (list? Command.ofJson?) }
  | _ => none

/-- Read a job from a text. -/
def read (text : String) : Except ReadError (Job Float) := Json.readAs ofJson? text

/-- The text of a job. -/
def text (job : Job Float) : String := job.toJson.text

end Job

end Toolpath
