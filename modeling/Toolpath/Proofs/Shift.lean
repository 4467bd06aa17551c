import Toolpath.Proofs.RealScalar
import Toolpath.Proofs.Trail

/-!
# Shifting the plane

Everything that is computed from a place in the plane is computed from ways to other places, so a
machine that is moved over the plane moves whatever it does along. Arithmetic is exact here: over
rounded numbers a place far out has fewer digits left for the same ways.

* `Point.shift_wayTo_shift`, `Stretch.shift_point` — ways stay, and places move along
* `Move.shift`, `Machine.shift` — moves and machines at another place
* `Machine.emitAll_shift`, `Machine.approach_shift` — what a machine does moves along
-/

namespace Toolpath

open Scalar RealScalar

section

variable {α : Type} [Scalar α]

/-- A position at the same height over another place. -/
def Position.shift (p : Position α) (v : Offset α) : Position α := ⟨p.x + v.x, p.y + v.y, p.z⟩

/-- The same stretch about another origin. -/
def Stretch.shift (s : Stretch α) (v : Offset α) : Stretch α := ⟨s.origin.shift v, s.scale⟩

/-- The same move to another place: the words for the plane are changed, and the center of an arc,
which is seen from its start, is not. -/
def Move.shift (d : Move α) (v : Offset α) : Move α :=
  { d with x := d.x.map (· + v.x), y := d.y.map (· + v.y) }

/-- The machine at another place, where it has been all the time. -/
def Machine.shift (m : Machine α) (v : Offset α) : Machine α :=
  { m with
    position := m.position.shift v
    arcStart := m.arcStart.shift v
    queue := m.queue.map (·.shift v) }

/-- The same outcome at another place. -/
def Outcome.shift {ρ : Type} (r : Outcome α ρ) (v : Offset α) : Outcome α ρ :=
  ⟨r.machine.shift v, r.rejection⟩

end

/-! ## Places and ways -/

namespace Point

variable (p q : Point ℝ) (v w : Offset ℝ)

theorem shift_comm : (p.shift v).shift w = (p.shift w).shift v := by
  simp only [shift, add_right_comm]

/-- The way between two places stays when both are moved. -/
@[simp] theorem shift_wayTo_shift : (p.shift v).wayTo (q.shift v) = p.wayTo q := by
  simp only [wayTo, shift, add_sub_add_right_eq_sub]

@[simp] theorem shift_near_shift : (p.shift v).Near (q.shift v) ↔ p.Near q := by
  simp only [Point.Near, Scalar.Near, shift, add_sub_add_right_eq_sub]

@[simp] theorem shift_rotateAbout_shift (degrees : ℝ) :
    (p.shift v).rotateAbout (q.shift v) degrees = (p.rotateAbout q degrees).shift v := by
  simp only [rotateAbout, shift_wayTo_shift]
  simp only [shift]
  congr 1 <;> ring

end Point

namespace Position

variable (p : Position ℝ) (v : Offset ℝ)

@[simp] theorem shift_point : (p.shift v).point = p.point.shift v := rfl

@[simp] theorem shift_z : (p.shift v).z = p.z := rfl

@[simp] theorem shift_over_shift (q : Point ℝ) : (p.shift v).Over (q.shift v) ↔ p.Over q :=
  Point.shift_near_shift p.point q v

end Position

namespace Stretch

variable (s : Stretch ℝ) (v : Offset ℝ)

@[simp] theorem shift_offset (w : Offset ℝ) : (s.shift v).offset w = s.offset w := rfl

@[simp] theorem shift_point (p : Point ℝ) :
    (s.shift v).point (p.shift v) = (s.point p).shift v := by
  unfold point
  rw [shift_offset]
  show (s.origin.shift v).shift (s.offset ((s.origin.shift v).wayTo (p.shift v))) = _
  rw [Point.shift_wayTo_shift, Point.shift_comm]

end Stretch

/-! ## Moves -/

namespace Move

variable (d : Move ℝ) (v : Offset ℝ)

@[simp] theorem shift_rapidZ (z : ℝ) : (rapidZ z).shift v = rapidZ z := rfl

@[simp] theorem shift_linearZ (z feed : ℝ) : (linearZ z feed).shift v = linearZ z feed := rfl

@[simp] theorem shift_rapidXY (p : Point ℝ) : (rapidXY p).shift v = rapidXY (p.shift v) := rfl

@[simp] theorem shift_linearXY (p : Point ℝ) (feed : ℝ) :
    (linearXY p feed).shift v = linearXY (p.shift v) feed := rfl

@[simp] theorem shift_arc (clockwise : Bool) (p : Point ℝ) (center : Offset ℝ) (feed : ℝ) :
    (arc clockwise p center feed).shift v = arc clockwise (p.shift v) center feed := rfl

@[simp] theorem shift_withZ (z : ℝ) : (d.withZ z).shift v = (d.shift v).withZ z := rfl

end Move

/-- A moved move leads from a moved position to the moved end. -/
@[simp] theorem Position.shift_after (p : Position ℝ) (d : Move ℝ) (v : Offset ℝ) :
    (p.shift v).after (d.shift v) = (p.after d).shift v := by
  obtain ⟨kind, x, y, z, i, j, feed⟩ := d
  cases x <;> cases y <;> rfl

/-! ## Machines -/

namespace Machine

variable (m : Machine ℝ) (v : Offset ℝ)

@[simp] theorem shift_position : (m.shift v).position = m.position.shift v := rfl

@[simp] theorem shift_feeds : (m.shift v).feeds = m.feeds := rfl

@[simp] theorem shift_keepDepth : (m.shift v).keepDepth = m.keepDepth := rfl

@[simp] theorem shift_transforms : (m.shift v).transforms = m.transforms := rfl

theorem atRest_shift (start : Position ℝ) (feeds : Feeds ℝ) (transforms : Transforms ℝ) :
    atRest (start.shift v) feeds transforms = (atRest start feeds transforms).shift v := by
  simp [atRest, shift]

/-- **A machine that is moved first emits the moved moves.** -/
theorem emit_shift (d : Move ℝ) : (m.shift v).emit (d.shift v) = (m.emit d).shift v := by
  simp [emit, shift]

theorem emitAll_shift (ds : List (Move ℝ)) :
    (m.shift v).emitAll (ds.map (·.shift v)) = (m.emitAll ds).shift v := by
  unfold emitAll
  rw [List.foldl_map]
  exact List.foldl_hom (shift · v) fun m d => m.emit_shift v d

/-! ## Operations of a machine -/

@[simp] theorem rapidZ_shift (z : ℝ) : (m.shift v).rapidZ z = (m.rapidZ z).shift v :=
  m.emit_shift v (.rapidZ z)

@[simp] theorem rapidXY_shift (p : Point ℝ) :
    (m.shift v).rapidXY (p.shift v) = (m.rapidXY p).shift v := m.emit_shift v (.rapidXY p)

@[simp] theorem plungeTo_shift (z : ℝ) : (m.shift v).plungeTo z = (m.plungeTo z).shift v :=
  m.emit_shift v (.linearZ z _)

@[simp] theorem lineTo_shift (p : Point ℝ) :
    (m.shift v).lineTo (p.shift v) = (m.lineTo p).shift v := m.emit_shift v (.linearXY p _)

@[simp] theorem retract_shift (safeZ : ℝ) :
    (m.shift v).retract safeZ = (m.retract safeZ).shift v := by
  simp only [retract, shift_position, Position.shift_z, rapidZ_shift, apply_ite (shift · v)]

@[simp] theorem pullUp_shift (stayDown : Bool) (z : ℝ) :
    (m.shift v).pullUp stayDown z = (m.pullUp stayDown z).shift v := by
  simp only [pullUp, shift_position, Position.shift_z, rapidZ_shift, apply_ite (shift · v)]

theorem raised_shift (tool : Tool ℝ) : (m.shift v).raised tool = (m.raised tool).shift v := by
  simp only [raised, shift_position, Position.shift_z, shift_keepDepth, rapidZ_shift,
    apply_ite (shift · v)]

theorem lowered_shift (depth : ℝ) : (m.shift v).lowered depth = (m.lowered depth).shift v := by
  simp only [lowered, shift_position, Position.shift_z, shift_keepDepth, plungeTo_shift,
    apply_ite (shift · v)]

@[simp] theorem approach_shift (tool : Tool ℝ) (entry : Point ℝ) (depth : ℝ) :
    (m.shift v).approach tool (entry.shift v) depth = (m.approach tool entry depth).shift v := by
  simp only [approach_eq, shift_position, Position.shift_over_shift, raised_shift, rapidXY_shift,
    lowered_shift, apply_ite (shift · v)]

end Machine

end Toolpath
