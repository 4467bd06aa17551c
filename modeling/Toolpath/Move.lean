import Toolpath.Number.Digits
import Toolpath.Plane

/-!
# Moves

A single move of the machine. Words that are absent leave their axis, or the feed, as it is; the
center of an arc is given as an offset from where the arc starts.
-/

namespace Toolpath

open Scalar

/-- How the machine moves. -/
inductive MoveKind where
  | rapid
  | linear
  | arcClockwise
  | arcCounterclockwise
  deriving DecidableEq, Repr

namespace MoveKind

/-- The number behind the letter G. -/
def code : MoveKind → Nat
  | .rapid => 0
  | .linear => 1
  | .arcClockwise => 2
  | .arcCounterclockwise => 3

/-- The word that selects the kind in G-code. -/
def word (k : MoveKind) : List Char := ['G', Digits.char k.code]

/-- The name of the kind in running text. -/
def name : MoveKind → String
  | .rapid => "rapid"
  | .linear => "linear"
  | .arcClockwise => "arc cw"
  | .arcCounterclockwise => "arc ccw"

/-- Follows a circle. -/
def isArc : MoveKind → Bool
  | .arcClockwise | .arcCounterclockwise => true
  | _ => false

end MoveKind

/-- A single move. -/
structure Move (α : Type) where
  kind : MoveKind
  x : Option α := none
  y : Option α := none
  z : Option α := none
  i : Option α := none
  j : Option α := none
  /-- Units per minute. -/
  feed : Option α := none
  deriving DecidableEq, Repr

namespace Move

variable {α : Type}

/-- A rapid move over a point. -/
def rapidXY (p : Point α) : Move α := { kind := .rapid, x := some p.x, y := some p.y }

/-- A rapid move to a height. -/
def rapidZ (z : α) : Move α := { kind := .rapid, z := some z }

/-- A straight cut to a point. -/
def linearXY (p : Point α) (feed : α) : Move α :=
  { kind := .linear, x := some p.x, y := some p.y, feed := some feed }

/-- A straight cut to a depth. -/
def linearZ (z feed : α) : Move α := { kind := .linear, z := some z, feed := some feed }

/-- A circular cut to a point, around a center relative to where it starts. -/
def arc (clockwise : Bool) (p : Point α) (center : Offset α) (feed : α) : Move α :=
  { kind := if clockwise then .arcClockwise else .arcCounterclockwise
    x := some p.x, y := some p.y, i := some center.x, j := some center.y, feed := some feed }

/-- The same move ending at a given depth. -/
def withZ (d : Move α) (z : α) : Move α := { d with z := some z }

/-- Moves along the Z axis alone. -/
def isZOnly (d : Move α) : Bool := d.z.isSome && d.x.isNone && d.y.isNone

end Move

/-- The position after a move: each axis with a word takes its value, the others stay. -/
def Position.after {α : Type} (p : Position α) (d : Move α) : Position α :=
  ⟨d.x.getD p.x, d.y.getD p.y, d.z.getD p.z⟩

/-- The position after a run of moves. -/
def Position.afterAll {α : Type} (p : Position α) (ds : List (Move α)) : Position α :=
  ds.foldl Position.after p

end Toolpath
