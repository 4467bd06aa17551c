import Toolpath.Arc.Sampler
import Toolpath.Rejection
import Toolpath.Side

/-!
# Arc orders

What every arc and circle command comes down to: an end, a center relative to where the tool is, and
how often, how deep and in which manner the arc is cut. An order is checked as a whole before the
first move.

An evenly stretched arc without a transform is cut as one circular move; a stretch that mirrors one
axis turns its sense round. Any other is cut as segments.

## Sections

* orders and their check
* the rings of a pocket
* the plan of an order: one arc, one ring, one pass
* all passes
-/

namespace Toolpath

open Scalar

/-- What a circular command cuts. -/
inductive CircleCut where
  /-- The outline. -/
  | profile
  /-- The whole inside, by nested rings from the outside in. -/
  | pocket
  /-- The outline, going down along each pass. -/
  | spiral
  /-- A spiral, then one level pass at the final depth. -/
  | spiralWithBottom
  deriving DecidableEq, Repr

/-- Goes down along each pass. -/
def CircleCut.isSpiral : CircleCut → Bool
  | .spiral | .spiralWithBottom => true
  | _ => false

/-- How often and how deep a shape is cut, and how the tool gets down and up. -/
structure Passes (α : Type) where
  /-- The change of depth of one pass; negative goes down. -/
  plunge : α
  repetitions : UInt32
  /-- Stay at the final depth. -/
  stayDown : Bool
  /-- Count depth from zero and not from where the tool is. -/
  fromZero : Bool
  deriving DecidableEq, Repr

/-- An arc or circle to cut from the current position. -/
structure ArcOrder (α : Type) where
  finish : Point α
  /-- The center, seen from the start. -/
  center : Offset α
  turn : Turn
  passes : Passes α
  /-- Proportions along the axes, about the start. -/
  scale : Offset α
  cut : CircleCut
  deriving DecidableEq, Repr

variable {α : Type} [Scalar α]

/-- One pass, at the depth where the tool is. -/
def Passes.single : Passes α := ⟨0, 1, false, false⟩

/-- A proportion has to be finite and not zero. -/
def requireProportion (parameter : String) (value : α) : Except (Cause α) Unit := do
  let value ← requireFinite parameter value
  if value == 0 then .error (.zeroProportion parameter) else .ok ()

namespace ArcOrder

/-- Check the numbers of an order. -/
def validate (o : ArcOrder α) : Except (Cause α) Unit := do
  let _ ← requireFinite "end_x" o.finish.x
  let _ ← requireFinite "end_y" o.finish.y
  let _ ← requireFinite "center_x" o.center.x
  let _ ← requireFinite "center_y" o.center.y
  let _ ← requireFinite "plunge" o.passes.plunge
  if o.passes.repetitions = 0 then .error .noRepetitions
  requireProportion "prop_x" o.scale.x
  requireProportion "prop_y" o.scale.y
  if o.center.Negligible then .error .centerOnStart else .ok ()

/-- The distance between two rings before the stretch, so that after it they are nowhere further
apart than the tool allows. -/
def ringStep (o : ArcOrder α) (tool : Tool α) : α :=
  tool.stepOver / Scalar.max (abs o.scale.x) (abs o.scale.y)

/-- Check an order, and that its pocket does not take too many rings. -/
def check (o : ArcOrder α) (tool : Tool α) : Except (Cause α) Unit := do
  o.validate
  match o.cut with
  | .pocket =>
    let _ ← passCount o.center.length (o.ringStep tool)
    .ok ()
  | _ => .ok ()

end ArcOrder

/-! ## The rings of a pocket -/

namespace Pocket

/-- A bound on the number of rings: as many steps as it takes to cover the radius. -/
def ringBound (radius step : α) : Nat :=
  if 0 < step ∧ 0 < radius then Nat.min (toNat (ceil (radius / step))) (UInt32.size - 1) else 0

/-- The starts of the rings, seen from the start of the outermost one, toward the center: as long as
they have not reached it, and at most `limit` of them. -/
def rings (limit : Nat) (center : Offset α) (step : α) : List (Offset α) :=
  let radius := center.length
  let inward := Offset.polar step (atan2 center.y center.x)
  ((List.range (Nat.min limit (ringBound radius step))).map fun j =>
    inward.scale (ofNat j) (ofNat j)).takeWhile fun v => v.length < radius

end Pocket

/-! ## The plan of an order -/

/-- An order at the place where it is carried out. -/
structure ArcPlan (α : Type) where
  order : ArcOrder α
  tool : Tool α
  /-- Where the arc starts. -/
  origin : Point α
  /-- Cut as straight segments. -/
  segmented : Bool
  deriving DecidableEq, Repr

namespace ArcPlan

/-- The plan of an order on a machine. -/
def ofOrder (o : ArcOrder α) (tool : Tool α) (m : Machine α) : ArcPlan α where
  order := o
  tool := tool
  origin := m.position.point
  segmented := abs o.scale.x != abs o.scale.y || m.transforms.anyActive

/-- The proportions, about the start. -/
def stretch (p : ArcPlan α) : Stretch α := ⟨p.origin, p.order.scale⟩

/-- The arc ends where it starts. -/
def Closed (p : ArcPlan α) : Prop := p.origin.Near p.order.finish

instance (p : ArcPlan α) : Decidable p.Closed :=
  inferInstanceAs (Decidable (p.origin.Near p.order.finish))

/-- The stretch mirrors one axis and not the other. -/
def mirrored (p : ArcPlan α) : Bool :=
  decide (p.order.scale.x < 0) != decide (p.order.scale.y < 0)

/-- The sense of a circular move after the stretch. -/
def clockwise (p : ArcPlan α) : Bool := p.order.turn.isClockwise != p.mirrored

/-- The arc of the order. -/
def outline (p : ArcPlan α) : Arc α :=
  ⟨p.origin, p.order.finish, p.order.center, p.order.turn.isClockwise⟩

/-- One circular move along an arc. It has a depth word only if it goes down. -/
def circularMove (p : ArcPlan α) (a : Arc α) (d : Depth α) (feed : α) : Move α :=
  let move := Move.arc p.clockwise (p.stretch.point a.finish) (p.stretch.offset a.center) feed
  if d.ramps then move.withZ d.final else move

/-- Cut along an arc. -/
def follow (p : ArcPlan α) (a : Arc α) (d : Depth α) (m : Machine α) : Machine α :=
  if p.segmented then
    (Sampler.ofArc a p.stretch d p.tool.arcStep m.feeds.xyPerMinute).cut m
  else m.emit (p.circularMove a d m.feeds.xyPerMinute)

/-- Back over the start, at a safe height. -/
def goBack (p : ArcPlan α) (m : Machine α) : Machine α :=
  (m.retract p.tool.safeZ).rapidXY p.origin

/-- Where a ring starts. -/
def ringStart (p : ArcPlan α) (v : Offset α) : Point α := p.origin.shift v

/-- One ring of a pocket. -/
def ring (p : ArcPlan α) (z : α) (m : Machine α) (v : Offset α) : Machine α :=
  let start := p.ringStart v
  p.follow ⟨start, start, p.order.center.sub v, p.order.turn.isClockwise⟩ (.level z) m

/-- The rings of a pocket, with a cut from each to the next. -/
def nest (p : ArcPlan α) (z : α) (m : Machine α) : List (Offset α) → Machine α
  | [] => m
  | v :: rest =>
    rest.foldl (fun m w => p.ring z (m.lineTo (p.stretch.point (p.ringStart w))) w) (p.ring z m v)

/-- A whole pocket, and back over the start at the safe height. -/
def pocket (p : ArcPlan α) (z : α) (m : Machine α) : Machine α :=
  let rings := Pocket.rings (maxPasses + 1) p.order.center (p.order.ringStep p.tool)
  ((p.nest z m rings).rapidZ p.tool.safeZ).rapidXY p.origin

/-- Down to the depth of the next pass, if passes go down at all. -/
def sink (p : ArcPlan α) (z : α) (m : Machine α) : α × Machine α :=
  let plunge := p.order.passes.plunge
  if plunge != 0 then (z + plunge, m.plungeTo (z + plunge)) else (z, m)

/-- One pass, from a depth; also the depth it ends at. -/
def pass (p : ArcPlan α) (z : α) (m : Machine α) : α × Machine α :=
  match p.order.cut with
  | .profile =>
    let (z, m) := p.sink z m
    (z, p.follow p.outline (.level z) m)
  | .pocket =>
    let (z, m) := p.sink z m
    (z, p.pocket z m)
  | .spiral | .spiralWithBottom =>
    (z + p.order.passes.plunge, p.follow p.outline (.ramp z p.order.passes.plunge) m)

/-- From the end of one pass to the start of the next. A pocket is there already, and so is an arc
that ends where it starts. -/
def between (p : ArcPlan α) (z : α) (m : Machine α) : Machine α :=
  if p.order.cut = .pocket ∨ p.Closed then m
  else if p.order.cut.isSpiral then (p.goBack m).plungeTo z
  else p.goBack m

/-! ## All passes -/

/-- A number of passes, from a depth; also the depth they end at. -/
def passes (p : ArcPlan α) : Nat → α → Machine α → α × Machine α
  | 0, z, m => (z, m)
  | 1, z, m => p.pass z m
  | n + 2, z, m =>
    let (z, m) := p.pass z m
    p.passes (n + 1) z (p.between z m)

/-- The level pass below a spiral. -/
def bottom (p : ArcPlan α) (z : α) (m : Machine α) : Machine α :=
  match p.order.cut with
  | .spiralWithBottom =>
    p.follow p.outline (.level z) (if p.Closed then m else (p.goBack m).plungeTo z)
  | _ => m

/-- Start from zero, if the order says so; also the depth to count from. -/
def surface (p : ArcPlan α) (m : Machine α) : α × Machine α :=
  if p.order.passes.fromZero && m.position.z != 0 then (0, m.rapidZ 0) else (m.position.z, m)

/-- Carry out the plan on a machine that stands at its origin. -/
def carryOut (p : ArcPlan α) (m : Machine α) : Machine α :=
  let start := m.position
  let (z, m) := p.surface
    { m with arcStart := start, keepDepth := p.order.passes.fromZero }
  let (z, m) := p.passes p.order.passes.repetitions.toNat z m
  (p.bottom z m).pullUp p.order.passes.stayDown start.z

end ArcPlan

/-- Check an order and carry it out. A rejected one leaves the machine as it was. -/
def ArcOrder.execute (command : CommandKind) (tool : Tool α) (o : ArcOrder α) (m : Machine α) :
    Outcome α (Rejection α) :=
  match o.check tool with
  | .error cause => ⟨m, some ⟨command, cause⟩⟩
  | .ok () => ⟨(ArcPlan.ofOrder o tool m).carryOut m, none⟩

end Toolpath
