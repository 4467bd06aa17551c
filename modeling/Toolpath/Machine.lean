import Toolpath.Move

/-!
# The machine

The state that the commands of a job share: where the tool is, what the last arc left behind, the
speeds, the transforms, and the queue of moves so far. A move enters the queue through `emit`, which
keeps the position in step, so the position is at any time the start followed through the queue.

Carrying out a command ends in an `Outcome`: the machine as it then is, and the rejection if there
was one.
-/

namespace Toolpath

open Scalar

/-- Speeds in units per second. -/
structure Feeds (α : Type) where
  xy : α
  z : α
  deriving DecidableEq, Repr

/-- A transform that can be switched on. -/
structure Toggle (α : Type) where
  apply : Bool
  magnitude : α
  deriving DecidableEq, Repr

/-- The transforms that are applied to the moves downstream. -/
structure Transforms (α : Type) where
  scale : Toggle α
  shearX : Toggle α
  shearY : Toggle α
  level : Toggle α
  deriving DecidableEq, Repr

/-- The tool and how finely it follows curves. -/
structure Tool (α : Type) where
  cutterDiameter : α
  /-- Overlap of neighbouring pocket passes, in percent of the diameter. -/
  pocketOverlap : α
  /-- A height clear of the workpiece. -/
  safeZ : α
  /-- The greatest angle between two points of an interpolated arc, in radians. -/
  arcStep : α
  deriving DecidableEq, Repr

/-- The state shared by the commands of a job. -/
structure Machine (α : Type) where
  position : Position α
  /-- Where the last arc started. -/
  arcStart : Position α
  feeds : Feeds α
  /-- The last arc asked for the tool to stay down during the next approach. -/
  keepDepth : Bool
  transforms : Transforms α
  queue : Array (Move α)
  deriving DecidableEq, Repr

/-- What became of a command. -/
structure Outcome (α ρ : Type) where
  machine : Machine α
  rejection : Option ρ

variable {α : Type} [Scalar α]

namespace Feeds

/-- The speeds in force when none are set. -/
def standard : Feeds α := ⟨1, 0.5⟩

/-- Units per minute in the plane. -/
def xyPerMinute (f : Feeds α) : α := f.xy * 60

/-- Units per minute along the Z axis. -/
def zPerMinute (f : Feeds α) : α := f.z * 60

end Feeds

namespace Transforms

/-- No transform. -/
def none : Transforms α := ⟨⟨false, 0⟩, ⟨false, 0⟩, ⟨false, 0⟩, ⟨false, 0⟩⟩

omit [Scalar α] in
/-- Some transform is switched on. -/
def anyActive (t : Transforms α) : Bool :=
  t.scale.apply || t.shearX.apply || t.shearY.apply || t.level.apply

end Transforms

namespace Tool

/-- The tool in use when none is set. -/
def standard : Tool α := ⟨0.25, 10, 0.5, 0.05⟩

/-- The distance between neighbouring pocket passes. -/
def stepOver (t : Tool α) : α := t.cutterDiameter * (100 - t.pocketOverlap) / 100

end Tool

namespace Machine

/-- A machine at rest, with nothing queued. -/
def atRest (position : Position α) (feeds : Feeds α) (transforms : Transforms α) : Machine α :=
  ⟨position, position, feeds, false, transforms, #[]⟩

/-- Queue a move and follow it. -/
def emit (m : Machine α) (d : Move α) : Machine α :=
  { m with position := m.position.after d, queue := m.queue.push d }

/-- Rapid to a height. -/
def rapidZ (m : Machine α) (z : α) : Machine α := m.emit (.rapidZ z)

/-- Rapid over a point. -/
def rapidXY (m : Machine α) (p : Point α) : Machine α := m.emit (.rapidXY p)

/-- Cut down, or rise, to a depth at the Z speed. -/
def plungeTo (m : Machine α) (z : α) : Machine α := m.emit (.linearZ z m.feeds.zPerMinute)

/-- Cut straight to a point at the XY speed. -/
def lineTo (m : Machine α) (p : Point α) : Machine α := m.emit (.linearXY p m.feeds.xyPerMinute)

/-- Rapid to the safe height, unless the tool is there. -/
def retract (m : Machine α) (safeZ : α) : Machine α :=
  if m.position.z != safeZ then m.rapidZ safeZ else m

/-- Rapid back to a height, unless the tool is there or is to stay down. -/
def pullUp (m : Machine α) (stayDown : Bool) (z : α) : Machine α :=
  if !stayDown && m.position.z != z then m.rapidZ z else m

/-- Go over an entry point and down again to a depth, unless the tool is there. A tool that is to
keep its depth neither rises first nor goes down after. -/
def approach (m : Machine α) (tool : Tool α) (entry : Point α) (depth : α) : Machine α :=
  if m.position.Over entry then m
  else
    let raised :=
      if m.position.z < tool.safeZ ∧ m.keepDepth = false then m.rapidZ tool.safeZ else m
    let above := raised.rapidXY entry
    if above.position.z != depth && !m.keepDepth then above.plungeTo depth else above

end Machine

end Toolpath
