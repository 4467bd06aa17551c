import Toolpath.Scalar

/-!
# Points, offsets and positions

A `Point` is a place in the XY plane, an `Offset` the way from one point to another, and a
`Position` a place in space, where the tool is. A `Stretch` scales the plane about an origin, each
axis by its own proportion.
-/

namespace Toolpath

open Scalar

/-- A place in the plane. -/
structure Point (α : Type) where
  x : α
  y : α
  deriving DecidableEq, Repr

/-- A way in the plane. -/
structure Offset (α : Type) where
  x : α
  y : α
  deriving DecidableEq, Repr

/-- A place in space. -/
structure Position (α : Type) where
  x : α
  y : α
  z : α
  deriving DecidableEq, Repr

variable {α : Type} [Scalar α]

namespace Offset

/-- The Euclidean length. -/
def length (v : Offset α) : α := hypot v.x v.y

/-- Both components are zero within the tolerance. -/
def Negligible (v : Offset α) : Prop := abs v.x ≤ tolerance ∧ abs v.y ≤ tolerance

instance (v : Offset α) : Decidable v.Negligible :=
  inferInstanceAs (Decidable (abs v.x ≤ tolerance ∧ abs v.y ≤ tolerance))

/-- Each component multiplied by its own factor. -/
def scale (v : Offset α) (sx sy : α) : Offset α := ⟨v.x * sx, v.y * sy⟩

/-- The difference of two offsets. -/
def sub (v w : Offset α) : Offset α := ⟨v.x - w.x, v.y - w.y⟩

/-- The offset of a given length at an angle, counted from the X axis. -/
def polar (length angle : α) : Offset α := ⟨length * cos angle, length * sin angle⟩

end Offset

namespace Point

/-- Two points agree on both axes within the tolerance. -/
def Near (p q : Point α) : Prop := Scalar.Near p.x q.x ∧ Scalar.Near p.y q.y

instance (p q : Point α) : Decidable (p.Near q) :=
  inferInstanceAs (Decidable (Scalar.Near p.x q.x ∧ Scalar.Near p.y q.y))

/-- The point reached by following an offset. -/
def shift (p : Point α) (v : Offset α) : Point α := ⟨p.x + v.x, p.y + v.y⟩

/-- The way from one point to another. -/
def wayTo (p q : Point α) : Offset α := ⟨q.x - p.x, q.y - p.y⟩

/-- A point turned about a pivot, counter-clockwise by degrees. -/
def rotateAbout (p pivot : Point α) (degrees : α) : Point α :=
  let s := sin (radians degrees)
  let c := cos (radians degrees)
  let v := pivot.wayTo p
  ⟨pivot.x + v.x * c - v.y * s, pivot.y + v.x * s + v.y * c⟩

end Point

namespace Position

/-- The point below or above which a position lies. -/
def point (p : Position α) : Point α := ⟨p.x, p.y⟩

/-- A position over a point, within the tolerance. -/
def Over (p : Position α) (q : Point α) : Prop := p.point.Near q

instance (p : Position α) (q : Point α) : Decidable (p.Over q) :=
  inferInstanceAs (Decidable (p.point.Near q))

end Position

/-- Proportions along the axes, applied about an origin. -/
structure Stretch (α : Type) where
  origin : Point α
  scale : Offset α
  deriving DecidableEq, Repr

namespace Stretch

/-- The stretch that moves nothing. -/
def identity (origin : Point α) : Stretch α := ⟨origin, ⟨1, 1⟩⟩

/-- Where a stretch takes an offset. -/
def offset (s : Stretch α) (v : Offset α) : Offset α := v.scale s.scale.x s.scale.y

/-- Where a stretch takes a point. -/
def point (s : Stretch α) (p : Point α) : Point α := s.origin.shift (s.offset (s.origin.wayTo p))

end Stretch

end Toolpath
