import Toolpath.Arc.Order

/-!
# Arcs given by chord and height, arcs given by end and center

A chord arc spans a chord along the X axis, to the right when it is cut clockwise and to the left
otherwise, and bulges upwards by its height. A relative arc names its end and the offset of its
center.
-/

namespace Toolpath

open Scalar

/-- An arc over a chord. -/
structure ChordArc (α : Type) where
  chord : Option α
  height : Option α
  side : Side
  turn : Turn
  /-- Accepted, without a part in the path. -/
  angle : Option α
  passes : Passes α
  scale : Offset α
  /-- Accepted, without a part in the path. -/
  tabs : Option UInt32
  deriving DecidableEq, Repr

/-- An arc to an end point, around a center seen from the start. -/
structure RelativeArc (α : Type) where
  endX : Option α
  endY : Option α
  centerX : Option α
  centerY : Option α
  turn : Turn
  passes : Passes α
  scale : Offset α
  cut : CircleCut
  deriving DecidableEq, Repr

variable {α : Type} [Scalar α]

namespace ChordArc

/-- The radius of the cutter's path. -/
def radius (a : ChordArc α) (tool : Tool α) : Except (Cause α) α := do
  let chord := abs (← requirePresent "chord" a.chord)
  let height := abs (← requirePresent "height" a.height)
  if height == 0 then .error .zeroHeight
  else
    let bare := height / 2 + chord * chord / (8 * height)
    let radius := bare + a.side.radiusChange tool.cutterDiameter
    if radius ≤ 0 then .error (.radiusNotPositive radius) else .ok radius

/-- The order of an arc that starts at a point. -/
def order (a : ChordArc α) (start : Point α) (tool : Tool α) : Except (Cause α) (ArcOrder α) := do
  let radius ← a.radius tool
  let chord := abs (a.chord.getD 0)
  let height := abs (a.height.getD 0)
  let half := if a.turn.isClockwise then chord / 2 else -chord / 2
  return {
    finish := start.shift ⟨2 * half, 0⟩
    center := ⟨half, height - radius⟩
    turn := a.turn
    passes := a.passes
    scale := a.scale
    cut := .profile }

/-- Cut a chord arc from the current position. -/
def execute (a : ChordArc α) (tool : Tool α) (m : Machine α) : Outcome α (Rejection α) :=
  match a.order m.position.point tool with
  | .error cause => ⟨m, some ⟨.chordArc, cause⟩⟩
  | .ok o => o.execute .chordArc tool m

end ChordArc

namespace RelativeArc

/-- The order of an arc that starts at a point; an end coordinate that is not given stays. -/
def order (a : RelativeArc α) (start : Point α) : Except (Cause α) (ArcOrder α) := do
  let x ← requirePresent "center_x" a.centerX
  let y ← requirePresent "center_y" a.centerY
  return {
    finish := ⟨a.endX.getD start.x, a.endY.getD start.y⟩
    center := ⟨x, y⟩
    turn := a.turn
    passes := a.passes
    scale := a.scale
    cut := a.cut }

/-- Cut a relative arc from the current position. -/
def execute (a : RelativeArc α) (tool : Tool α) (m : Machine α) : Outcome α (Rejection α) :=
  match a.order m.position.point with
  | .error cause => ⟨m, some ⟨.arc, cause⟩⟩
  | .ok o => o.execute .arc tool m

end RelativeArc

end Toolpath
