import Toolpath.Scalar

/-!
# Sides and turns

`Side` says on which side of the programmed line the cutter runs, `Turn` which way round a shape is
cut.
-/

namespace Toolpath

open Scalar

/-- The side of the programmed line on which the cutter runs. -/
inductive Side where
  | inside
  | on
  | outside
  deriving DecidableEq, Repr

/-- Which way round a shape is cut. -/
inductive Turn where
  | clockwise
  | counterclockwise
  deriving DecidableEq, Repr

variable {α : Type} [Scalar α]

namespace Side

/-- Minus one inside, one outside. -/
def sign : Side → α
  | .inside => -1
  | .on => 0
  | .outside => 1

/-- By how much a cutter of this diameter changes the radius of its path. -/
def radiusChange (side : Side) (diameter : α) : α := side.sign * diameter / 2

end Side

namespace Turn

/-- Clockwise or not. -/
def isClockwise : Turn → Bool
  | .clockwise => true
  | .counterclockwise => false

/-- One clockwise, minus one counter-clockwise. -/
def sign (t : Turn) : α := if t.isClockwise then 1 else -1

/-- The other way round. -/
def reversed : Turn → Turn
  | .clockwise => .counterclockwise
  | .counterclockwise => .clockwise

end Turn

end Toolpath
