import Toolpath.Arc.Order

/-!
# Rectangles

A rectangle is cut along its outline, or cleared by laps that lie inside each other. It starts at
one of its corners, which is where the tool is, or has its center there. Corners are named as seen
from the start corner, whose own number is four: every lap ends where it began.

## Sections

* corners, anchors and the command
* the layout: where the corners of each lap are
* laps, passes and the whole command
-/

namespace Toolpath

open Scalar

/-- A corner of a rectangle, counted from the start corner, which is the fourth. -/
inductive Corner where
  | first
  | second
  | third
  | fourth
  deriving DecidableEq, Repr

/-- The number of a corner. -/
def Corner.number : Corner → Nat
  | .first => 1
  | .second => 2
  | .third => 3
  | .fourth => 4

/-- What is at the current position: the center of a rectangle or one of its corners. The fourth is
the bottom left one. -/
inductive Anchor where
  | center
  | corner (c : Corner)
  deriving DecidableEq, Repr

/-- How a rectangle is cut. -/
inductive RectangleCut where
  | profile
  | pocketOutsideIn
  | pocketInsideOut
  deriving DecidableEq, Repr

/-- The axis named for going down. Depth is always along Z. -/
inductive PlungeAxis where
  | z
  | a
  deriving DecidableEq, Repr

/-- A rectangle to cut. -/
structure Rectangle (α : Type) where
  lenX : Option α
  lenY : Option α
  side : Side
  turn : Turn
  anchor : Anchor
  passes : Passes α
  cut : RectangleCut
  /-- Degrees, counter-clockwise. -/
  rotation : α
  plungeAxis : PlungeAxis
  /-- Go down along the corners of the first lap. -/
  rampFirst : Bool
  centerX : Option α
  centerY : Option α
  deriving DecidableEq, Repr

/-- Clears the inside. -/
def RectangleCut.isPocket : RectangleCut → Bool
  | .profile => false
  | _ => true

namespace Anchor

/-- The number of an anchor; zero for the center. -/
def number : Anchor → Nat
  | .center => 0
  | .corner c => c.number

/-- The anchor with a number. -/
def ofNumber? : Nat → Option Anchor
  | 0 => some .center
  | 1 => some (.corner .first)
  | 2 => some (.corner .second)
  | 3 => some (.corner .third)
  | 4 => some (.corner .fourth)
  | _ => none

/-- In which direction the rectangle extends along each axis. -/
def signs {α : Type} [Scalar α] : Anchor → α × α
  | .corner .first => (1, -1)
  | .corner .second => (-1, -1)
  | .corner .third => (-1, 1)
  | .corner .fourth | .center => (1, 1)

/-- Whether the corners are visited in falling order to go round in a given turn. -/
def descends : Anchor → Turn → Bool
  | .corner .first, t | .corner .third, t => !t.isClockwise
  | _, t => t.isClockwise

/-- The order in which the corners are visited; the start corner comes last. -/
def visits (a : Anchor) (t : Turn) : List Corner :=
  if a.descends t then [.third, .second, .first, .fourth]
  else [.first, .second, .third, .fourth]

end Anchor

/-! ## The layout -/

/-- Where the laps of a rectangle lie. -/
structure Layout (α : Type) where
  /-- The start corner before rotation. -/
  base : Point α
  /-- The lengths, with the direction in which the rectangle extends. -/
  extent : Offset α
  /-- The direction along each axis. -/
  sense : Offset α
  visits : List Corner
  pivot : Point α
  rotation : α
  stepOver : α
  /-- The number of laps. -/
  laps : Nat
  cut : RectangleCut
  deriving DecidableEq, Repr

variable {α : Type} [Scalar α]

namespace Layout

/-- A length with the change that compensation makes; there has to be something left of it. -/
def compensated (parameter : String) (growth len : α) : Except (Cause α) α :=
  let len := len + growth
  if len ≤ 0 then .error (.compensatedLengthNotPositive parameter len) else .ok len

/-- How many laps clear a rectangle, or one lap for the outline alone. -/
def lapCount (cut : RectangleCut) (extent : Offset α) (stepOver : α) : Except (Cause α) Nat :=
  if cut.isPocket then
    (passCount (Scalar.min (abs extent.x) (abs extent.y) / 2) stepOver).map (· + 1)
  else .ok 1

/-- The layout of a rectangle that is cut from a position. -/
def ofRectangle (r : Rectangle α) (position : Point α) (tool : Tool α) :
    Except (Cause α) (Layout α) := do
  let lenX ← requirePresent "len_x" r.lenX
  let lenY ← requirePresent "len_y" r.lenY
  let rotation ← requireFinite "rotation" r.rotation
  let _ ← requireFinite "plunge" r.passes.plunge
  if r.passes.repetitions = 0 then .error .noRepetitions
  let (signX, signY) := r.anchor.signs
  let growth := r.side.sign * tool.cutterDiameter
  let width ← compensated "len_x" growth lenX
  let height ← compensated "len_y" growth lenY
  let extent : Offset α := ⟨width * signX, height * signY⟩
  let (base, pivot) ← match r.anchor with
    | .center => do
      let x ← requireFinite "center_x" (r.centerX.getD position.x)
      let y ← requireFinite "center_y" (r.centerY.getD position.y)
      pure ((⟨x - extent.x / 2, y - extent.y / 2⟩, ⟨x, y⟩) : Point α × Point α)
    | .corner _ =>
      let shift := growth / 2
      pure (⟨position.x - shift * signX, position.y - shift * signY⟩, position)
  let laps ← lapCount r.cut extent tool.stepOver
  return {
    base := base
    extent := extent
    sense := ⟨signX, signY⟩
    visits := r.anchor.visits r.turn
    pivot := pivot
    rotation := rotation
    stepOver := tool.stepOver
    laps := laps
    cut := r.cut }

/-- How far a lap lies inside the outline. -/
def inset (l : Layout α) (lap : Nat) : α :=
  match l.cut with
  | .profile => 0
  | .pocketOutsideIn => l.stepOver * ofNat lap
  | .pocketInsideOut => l.stepOver * ofNat (l.laps - 1 - lap)

/-- A corner before rotation, that far inside the outline. -/
def unrotated (l : Layout α) (inset : α) : Corner → Point α
  | .first => ⟨l.base.x + l.extent.x - inset * l.sense.x, l.base.y + inset * l.sense.y⟩
  | .second =>
    ⟨l.base.x + l.extent.x - inset * l.sense.x, l.base.y + l.extent.y - inset * l.sense.y⟩
  | .third => ⟨l.base.x + inset * l.sense.x, l.base.y + l.extent.y - inset * l.sense.y⟩
  | .fourth => ⟨l.base.x + inset * l.sense.x, l.base.y + inset * l.sense.y⟩

/-- A corner, that far inside the outline. -/
def corner (l : Layout α) (inset : α) (c : Corner) : Point α :=
  if l.rotation == 0 then l.unrotated inset c
  else (l.unrotated inset c).rotateAbout l.pivot l.rotation

/-- The start corner of a lap. -/
def entry (l : Layout α) (lap : Nat) : Point α := l.corner (l.inset lap) .fourth

/-- The corners of a lap, in the order in which they are visited. -/
def lapCorners (l : Layout α) (lap : Nat) : List (Point α) :=
  l.visits.map (l.corner (l.inset lap))

end Layout

/-- The corners of the first lap, in the order in which they are visited. -/
def Rectangle.outline (r : Rectangle α) (position : Point α) (tool : Tool α) :
    Except (Cause α) (List (Point α)) :=
  (Layout.ofRectangle r position tool).map (·.lapCorners 0)

/-! ## Laps, passes and the whole command -/

/-- The fractions of the plunge reached at the corners of a ramped lap. -/
def rampFractions : List α := [0.25, 0.5, 0.75, 1]

namespace Layout

/-- One level lap. -/
def lap (l : Layout α) (lap : Nat) (m : Machine α) : Machine α :=
  (l.lapCorners lap).foldl Machine.lineTo m

/-- One lap that goes down from a depth. -/
def rampLap (l : Layout α) (lap : Nat) (z plunge : α) (m : Machine α) : Machine α :=
  ((l.lapCorners lap).zip rampFractions).foldl
    (fun m (p, fraction) =>
      m.emit ((Move.linearXY p m.feeds.xyPerMinute).withZ (z + plunge * fraction))) m

/-- The laps behind the first one, with a cut from each to the next. -/
def innerLaps (l : Layout α) (m : Machine α) : Machine α :=
  (List.range (l.laps - 1)).foldl (fun m j => l.lap (j + 1) (m.lineTo (l.entry (j + 1)))) m

end Layout

namespace Rectangle

/-- One pass over all laps, from a depth; also the depth it ends at. A ramped first lap is followed
by a level one only if no other pass will clear what the ramp leaves. -/
def pass (r : Rectangle α) (l : Layout α) (isFirst : Bool) (z : α) (m : Machine α) :
    α × Machine α :=
  let plunge := r.passes.plunge
  let deeper := z + plunge
  if plunge != 0 then
    if r.rampFirst && isFirst then
      let ramped := l.rampLap 0 z plunge m
      (deeper, l.innerLaps (if r.passes.repetitions = 1 then l.lap 0 ramped else ramped))
    else (deeper, l.innerLaps (l.lap 0 (m.plungeTo deeper)))
  else (z, l.innerLaps (l.lap 0 m))

/-- Back over the start corner, unless the tool is there; down again if a pass follows. -/
def goBack (tool : Tool α) (l : Layout α) (isLast : Bool) (z : α) (m : Machine α) : Machine α :=
  if m.position.Over (l.entry 0) then m
  else
    let back := (m.retract tool.safeZ).rapidXY (l.entry 0)
    if isLast then back else back.plungeTo z

/-- A number of passes, from a depth. -/
def repeatPass (r : Rectangle α) (tool : Tool α) (l : Layout α) :
    Nat → Bool → α → Machine α → Machine α
  | 0, _, _, m => m
  | n + 1, isFirst, z, m =>
    let (z, m) := r.pass l isFirst z m
    r.repeatPass tool l n false z (goBack tool l (n == 0) z m)

/-- The depth that passes are counted from. -/
def surface (r : Rectangle α) (z : α) : α :=
  if r.passes.plunge != 0 && r.passes.fromZero then 0 else z

/-- Cut a rectangle whose layout is known. -/
def carryOut (r : Rectangle α) (tool : Tool α) (l : Layout α) (m : Machine α) : Machine α :=
  let start := m.position
  let z := r.surface start.z
  let done := r.repeatPass tool l r.passes.repetitions.toNat true z
    (m.approach tool (l.entry 0) z)
  let up := done.pullUp r.passes.stayDown start.z
  match r.cut with
  | .pocketInsideOut => up.rapidXY start.point
  | _ => up

/-- Cut a rectangle from the current position. -/
def execute (r : Rectangle α) (tool : Tool α) (m : Machine α) : Outcome α (Rejection α) :=
  match Layout.ofRectangle r m.position.point tool with
  | .error cause => ⟨m, some ⟨.rectangle, cause⟩⟩
  | .ok l => ⟨r.carryOut tool l m, none⟩

end Rectangle

end Toolpath
