import Toolpath.Bearing
import Toolpath.Machine

/-!
# Arcs as straight segments

A circular move can follow a circle only. An arc that is stretched unevenly, or that a transform
will bend, is cut as short straight segments instead: points are taken on the unstretched circle, by
bearing, and each is stretched on its own.

All segments but the last advance by the same angle. The last one goes exactly to the end of the
arc, and takes up to one hundredth of a step more than the others so that no sliver remains.

## Sections

* arcs and the depth along them
* the sampler of an arc
* its moves
-/

namespace Toolpath

open Scalar

/-- An arc of a circle, before any stretch. -/
structure Arc (α : Type) where
  start : Point α
  finish : Point α
  /-- The center, seen from the start. -/
  center : Offset α
  clockwise : Bool
  deriving DecidableEq, Repr

/-- How deep the tool is along an arc. -/
inductive Depth (α : Type) where
  | level (z : α)
  /-- From `z` on by `plunge`, in proportion to the angle. -/
  | ramp (z plunge : α)
  deriving DecidableEq, Repr

variable {α : Type} [Scalar α]

namespace Arc

/-- Ends where it starts, and so goes all the way round. -/
def Closed (a : Arc α) : Prop := a.start.Near a.finish

instance (a : Arc α) : Decidable a.Closed := inferInstanceAs (Decidable (a.start.Near a.finish))

/-- The center in the plane. -/
def centerPoint (a : Arc α) : Point α := a.start.shift a.center

/-- The radius. -/
def radius (a : Arc α) : α := a.center.length

/-- The bearing of a point from the center, in radians. -/
def bearingOf (a : Arc α) (p : Point α) : α := Bearing.ofOffset (a.centerPoint.wayTo p)

/-- A difference of two bearings as an angle of at most one turn, not below zero. -/
def unwind (angle : α) : α :=
  if angle < 0 then angle + turn else if angle < turn then angle else angle - turn

/-- The angle the arc goes through. -/
def sweep (a : Arc α) : α :=
  let first := a.bearingOf a.start
  let last := a.bearingOf a.finish
  if a.Closed then turn
  else if a.clockwise then unwind (last - first)
  else unwind (first - last)

/-- Arcs of a smaller angle than this are no motion. -/
def minSweep : α := 1e-5

/-- Too small to cut. -/
def Degenerate (a : Arc α) : Prop := a.radius ≤ tolerance ∨ a.sweep < minSweep

instance (a : Arc α) : Decidable a.Degenerate :=
  inferInstanceAs (Decidable (a.radius ≤ tolerance ∨ a.sweep < minSweep))

end Arc

namespace Depth

/-- The depth changes along the arc. -/
def ramps : Depth α → Bool
  | .level _ => false
  | .ramp _ plunge => plunge != 0

/-- The depth at the end. -/
def final : Depth α → α
  | .level z => z
  | .ramp z plunge => z + plunge

/-- The depth when a fraction of the angle is done. -/
def along (d : Depth α) (fraction : α) : α :=
  match d with
  | .level z => z
  | .ramp z plunge => if plunge != 0 then z + plunge * fraction else z + plunge

end Depth

/-! ## The sampler -/

/-- An arc with all that is needed to take points on it. -/
structure Sampler (α : Type) where
  center : Point α
  radius : α
  /-- The bearing of the start. -/
  first : α
  sweep : α
  /-- The angle between two points. -/
  step : α
  clockwise : Bool
  /-- The end, stretched. -/
  finish : Point α
  stretch : Stretch α
  depth : Depth α
  feed : α
  degenerate : Bool
  deriving DecidableEq, Repr

namespace Sampler

/-- The angle between two points: the one asked for, but at least four segments are cut. -/
def stepFor (sweep arcStep : α) : α :=
  if 0 < arcStep then Scalar.min arcStep (0.25 * sweep) else 0.25 * sweep

/-- The sampler of an arc. -/
def ofArc (a : Arc α) (stretch : Stretch α) (depth : Depth α) (arcStep feed : α) : Sampler α where
  center := a.centerPoint
  radius := a.radius
  first := a.bearingOf a.start
  sweep := a.sweep
  step := stepFor a.sweep arcStep
  clockwise := a.clockwise
  finish := stretch.point a.finish
  stretch := stretch
  depth := depth
  feed := feed
  degenerate := decide a.Degenerate

/-- The last segment may be longer than the others by this factor. -/
def snapFactor : α := 1.01

/-- The point at an angle from the start. -/
def point (s : Sampler α) (angle : α) : Point α :=
  let bearing := if s.clockwise then s.first + angle else s.first - angle
  s.stretch.point (s.center.shift (Bearing.offset s.radius bearing))

/-- The segment that ends at an angle from the start, in a given point. -/
def moveTo (s : Sampler α) (p : Point α) (angle : α) : Move α :=
  (Move.linearXY p s.feed).withZ (s.depth.along (angle / s.sweep))

/-- The last segment. -/
def lastMove (s : Sampler α) : Move α := s.moveTo s.finish s.sweep

/-! ## The moves -/

/-- Fold over the segments from an angle on, at most `limit` of them. -/
def foldFrom {β : Type} (s : Sampler α) (f : β → Move α → β) : Nat → α → β → β
  | 0, _, b => b
  | limit + 1, angle, b =>
    if s.sweep - angle < snapFactor * s.step then f b s.lastMove
    else s.foldFrom f limit (angle + s.step)
      (f b (s.moveTo (s.point (angle + s.step)) (angle + s.step)))

/-- Fold over the segments, at most `limit` of them. -/
def fold {β : Type} (s : Sampler α) (f : β → Move α → β) (limit : Nat) (b : β) : β :=
  if s.degenerate then b else s.foldFrom f limit 0 b

/-- The first segments, at most `limit` of them. -/
def take (s : Sampler α) (limit : Nat) : Array (Move α) := s.fold Array.push limit #[]

/-- More segments than there are. In rounded arithmetic the steps add up to a little less than they
should, so twice the quotient is allowed. -/
def bound (s : Sampler α) : Nat := 2 * toNat (ceil (s.sweep / s.step)) + 4

/-- Cut the arc. -/
def cut (s : Sampler α) (m : Machine α) : Machine α := s.fold Machine.emit s.bound m

end Sampler

end Toolpath
