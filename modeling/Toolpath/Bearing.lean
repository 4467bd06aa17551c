import Toolpath.Plane

/-!
# Bearings

A bearing is an angle in degrees, clockwise from north (the direction of the Y axis). Trigonometry
wants the angle in radians, counter-clockwise from east.
-/

namespace Toolpath.Bearing

open Scalar

variable {α : Type} [Scalar α]

/-- A bearing as degrees counter-clockwise from east, brought back by one turn at either end. -/
def fold (bearing : α) : α :=
  let angle := 450 - bearing
  if 360 ≤ angle then angle - 360
  else if angle ≤ -360 then angle + 360
  else angle

/-- A bearing as radians counter-clockwise from east. -/
def angle (bearing : α) : α := radians (fold bearing)

/-- The direction of an offset as a bearing in radians. -/
def ofOffset (v : Offset α) : α := atan2 v.x v.y

/-- The offset of a given length at a bearing in radians. -/
def offset (length bearing : α) : Offset α := ⟨length * sin bearing, length * cos bearing⟩

end Toolpath.Bearing
