import Toolpath.Arc.Order

/-!
# Circles and arcs given by bearings

Both commands name a diameter and the bearings, seen from the center, at which the cut starts and
ends; equal bearings make a full circle. A bearing circle takes the current position as its start. A
center circle has its center given, or at the current position, and the tool goes over its start
first.

## Sections

* radius and angles, common to both
* the circle through the current position
* the circle around a center
-/

namespace Toolpath

open Scalar

/-- What both kinds of circle have. -/
structure Circle (α : Type) where
  diameter : Option α
  side : Side
  turn : Turn
  startBearing : α
  endBearing : α
  passes : Passes α
  scale : Offset α
  cut : CircleCut
  deriving DecidableEq, Repr

/-- A circle that starts at the current position. -/
structure BearingCircle (α : Type) extends Circle α
  deriving DecidableEq, Repr

/-- A circle around a center; a coordinate that is not given is that of the current position. -/
structure CenterCircle (α : Type) extends Circle α where
  centerX : Option α
  centerY : Option α
  deriving DecidableEq, Repr

variable {α : Type} [Scalar α]

/-- Components below this are noise of the trigonometric functions. -/
def noise : α := 1e-9

/-- A component without noise. -/
def denoise (c : α) : α := if abs c < noise then 0 else c

/-- An offset without noise in its components. -/
def Offset.denoised (v : Offset α) : Offset α := ⟨denoise v.x, denoise v.y⟩

namespace Circle

/-- The radius of the cutter's path. -/
def radius (c : Circle α) (tool : Tool α) : Except (Cause α) α := do
  let diameter ← requirePresent "diameter" c.diameter
  if diameter ≤ 0 then .error (.diameterNotPositive diameter)
  else
    let radius := diameter / 2 + c.side.radiusChange tool.cutterDiameter
    if radius ≤ 0 then .error (.compensatedRadiusNotPositive radius) else .ok radius

/-- The angles of start and end, counter-clockwise from east. -/
def angles (c : Circle α) : Except (Cause α) (α × α) := do
  let start ← requireFinite "start_bearing" c.startBearing
  let finish ← requireFinite "end_bearing" c.endBearing
  return (Bearing.angle start, Bearing.angle finish)

/-- Goes all the way round. -/
def isFull (c : Circle α) : Bool := c.startBearing == c.endBearing

/-- The order for a path around a center, which is seen from the start. -/
def orderFor (c : Circle α) (finish : Point α) (center : Offset α) : ArcOrder α where
  finish := finish
  center := center
  turn := c.turn
  passes := c.passes
  scale := c.scale
  cut := c.cut

end Circle

namespace BearingCircle

/-- The order of a circle that starts at a point. -/
def order (c : BearingCircle α) (start : Point α) (tool : Tool α) :
    Except (Cause α) (ArcOrder α) := do
  let radius ← c.radius tool
  let (first, last) ← c.angles
  let center := (Offset.polar radius (first + pi)).denoised
  let finish :=
    if c.isFull then start else (start.shift center).shift (Offset.polar radius last)
  return c.orderFor finish center

/-- Cut a circle from the current position. -/
def execute (c : BearingCircle α) (tool : Tool α) (m : Machine α) : Outcome α (Rejection α) :=
  match c.order m.position.point tool with
  | .error cause => ⟨m, some ⟨.bearingCircle, cause⟩⟩
  | .ok o => o.execute .bearingCircle tool m

end BearingCircle

namespace CenterCircle

/-- Where a circle starts, and its order from there. -/
def order (c : CenterCircle α) (position : Point α) (tool : Tool α) :
    Except (Cause α) (Point α × ArcOrder α) := do
  let radius ← c.radius tool
  let (first, last) ← c.angles
  let x ← requireFinite "center_x" (c.centerX.getD position.x)
  let y ← requireFinite "center_y" (c.centerY.getD position.y)
  let center : Point α := ⟨x, y⟩
  let entry := center.shift (Offset.polar radius first)
  let finish := if c.isFull then entry else center.shift (Offset.polar radius last)
  return (entry, c.orderFor finish (entry.wayTo center).denoised)

/-- Go over the start of a circle and cut it. The order is checked before the tool moves. -/
def execute (c : CenterCircle α) (tool : Tool α) (m : Machine α) : Outcome α (Rejection α) :=
  match c.order m.position.point tool with
  | .error cause => ⟨m, some ⟨.centerCircle, cause⟩⟩
  | .ok (entry, o) =>
    match o.check tool with
    | .error cause => ⟨m, some ⟨.centerCircle, cause⟩⟩
    | .ok () => o.execute .centerCircle tool (m.approach tool entry m.position.z)

end CenterCircle

end Toolpath
