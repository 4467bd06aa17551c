import Toolpath.Proofs.Arc.Passes
import Toolpath.Proofs.Shift
import Toolpath.Proofs.Verdict

/-!
# Shifting an arc

An arc order names its end by a place and its center by a way. With the end moved along, the plan of
the order is that of the moved machine, and each part of it does the same at another place: the
points of a segmented arc, the rings of a pocket and the ways back over the start all move along.

* `Sampler.moves_shift` — the segments of an arc
* `ArcPlan.follow_shift`, `ArcPlan.pocket_shift`, `ArcPlan.pass_shift` — the parts of a plan
* `ArcPlan.carryOut_shift` — the whole plan
* `ArcOrder.execute_shift` — an order is rejected for the same cause, or does the same elsewhere
-/

namespace Toolpath

open Scalar RealScalar

section

variable {α : Type} [Scalar α]

/-- The same arc at another place. -/
def Arc.shift (a : Arc α) (v : Offset α) : Arc α :=
  { a with start := a.start.shift v, finish := a.finish.shift v }

/-- The same points at another place. -/
def Sampler.shift (s : Sampler α) (v : Offset α) : Sampler α :=
  { s with center := s.center.shift v, finish := s.finish.shift v, stretch := s.stretch.shift v }

/-- The order of the same shape at another place. -/
def ArcOrder.shift (o : ArcOrder α) (v : Offset α) : ArcOrder α :=
  { o with finish := o.finish.shift v }

/-- The plan of the same shape at another place. -/
def ArcPlan.shift (p : ArcPlan α) (v : Offset α) : ArcPlan α :=
  { p with order := p.order.shift v, origin := p.origin.shift v }

end

/-! ## Arcs and their segments -/

namespace Arc

variable (a : Arc ℝ) (v : Offset ℝ)

theorem centerPoint_shift : (a.shift v).centerPoint = a.centerPoint.shift v :=
  a.start.shift_comm v a.center

theorem bearingOf_shift (p : Point ℝ) : (a.shift v).bearingOf (p.shift v) = a.bearingOf p := by
  unfold bearingOf
  rw [centerPoint_shift, Point.shift_wayTo_shift]

theorem closed_shift : (a.shift v).Closed ↔ a.Closed := Point.shift_near_shift a.start a.finish v

theorem sweep_shift : (a.shift v).sweep = a.sweep := by
  have hstart : (a.shift v).bearingOf (a.shift v).start = a.bearingOf a.start :=
    a.bearingOf_shift v a.start
  have hfinish : (a.shift v).bearingOf (a.shift v).finish = a.bearingOf a.finish :=
    a.bearingOf_shift v a.finish
  unfold sweep
  simp only [hstart, hfinish, closed_shift]
  rfl

theorem degenerate_shift : (a.shift v).Degenerate ↔ a.Degenerate := by
  unfold Degenerate
  rw [sweep_shift]
  rfl

end Arc

namespace Sampler

variable (s : Sampler ℝ) (v : Offset ℝ)

theorem ofArc_shift (a : Arc ℝ) (stretch : Stretch ℝ) (depth : Depth ℝ) (arcStep feed : ℝ) :
    ofArc (a.shift v) (stretch.shift v) depth arcStep feed =
      (ofArc a stretch depth arcStep feed).shift v := by
  have hfinish : (stretch.shift v).point (a.shift v).finish = (stretch.point a.finish).shift v :=
    stretch.shift_point v a.finish
  have hfirst : (a.shift v).bearingOf (a.shift v).start = a.bearingOf a.start :=
    a.bearingOf_shift v a.start
  unfold ofArc
  simp only [hfinish, hfirst, a.sweep_shift, a.centerPoint_shift, a.degenerate_shift]
  rfl

theorem point_shift (angle : ℝ) : (s.shift v).point angle = (s.point angle).shift v := by
  unfold point
  simp only [shift, s.center.shift_comm v]
  exact s.stretch.shift_point v _

theorem moveTo_shift (p : Point ℝ) (angle : ℝ) :
    (s.shift v).moveTo (p.shift v) angle = (s.moveTo p angle).shift v := rfl

theorem movesFrom_shift (limit : ℕ) (angle : ℝ) :
    (s.shift v).movesFrom limit angle = (s.movesFrom limit angle).map (·.shift v) := by
  induction limit generalizing angle with
  | zero => rfl
  | succ limit ih =>
    have hpoint := s.point_shift v (angle + s.step)
    have hnext := ih (angle + s.step)
    -- whether a segment is the last one is a matter of angles
    by_cases hlast : s.sweep - angle < snapFactor * s.step
    · have hlast' : (s.shift v).sweep - angle < snapFactor * (s.shift v).step := hlast
      rw [movesFrom, movesFrom, if_pos hlast, if_pos hlast']
      rfl
    · have hlast' : ¬(s.shift v).sweep - angle < snapFactor * (s.shift v).step := hlast
      rw [movesFrom, movesFrom, if_neg hlast, if_neg hlast', List.map_cons, ← moveTo_shift,
        ← hpoint, ← hnext]
      rfl

/-- **The segments of a moved arc are the moved segments.** -/
theorem moves_shift : (s.shift v).moves = s.moves.map (·.shift v) := by
  have hmoves := s.movesFrom_shift v s.bound (Scalar.ofNat 0)
  by_cases hs : s.degenerate = true
  · have hs' : (s.shift v).degenerate = true := hs
    rw [moves, moves, if_pos hs, if_pos hs', List.map_nil]
  · have hs' : ¬(s.shift v).degenerate = true := hs
    rw [moves, moves, if_neg hs, if_neg hs']
    exact hmoves

theorem cut_shift (m : Machine ℝ) : (s.shift v).cut (m.shift v) = (s.cut m).shift v := by
  rw [cut_eq, cut_eq, moves_shift, Machine.emitAll_shift]

end Sampler

/-! ## The parts of a plan -/

namespace ArcPlan

variable (p : ArcPlan ℝ) (v : Offset ℝ) (m : Machine ℝ)

theorem closed_shift : (p.shift v).Closed ↔ p.Closed :=
  Point.shift_near_shift p.origin p.order.finish v

theorem circularMove_shift (a : Arc ℝ) (d : Depth ℝ) (feed : ℝ) :
    (p.shift v).circularMove (a.shift v) d feed = (p.circularMove a d feed).shift v := by
  have hfinish : (p.shift v).stretch.point (a.shift v).finish =
      (p.stretch.point a.finish).shift v := p.stretch.shift_point v a.finish
  unfold circularMove
  rw [hfinish]
  cases d.ramps <;> rfl

/-- **An arc is followed elsewhere**, in one move or in segments. -/
theorem follow_shift (a : Arc ℝ) (d : Depth ℝ) :
    (p.shift v).follow (a.shift v) d (m.shift v) = (p.follow a d m).shift v := by
  have hsegmented : (p.shift v).segmented = p.segmented := rfl
  unfold follow
  rw [hsegmented]
  split
  · have hsampler := Sampler.ofArc_shift v a p.stretch d p.tool.arcStep m.feeds.xyPerMinute
    rw [← Sampler.cut_shift, ← hsampler]
    rfl
  · rw [← Machine.emit_shift, ← circularMove_shift]
    rfl

theorem goBack_shift : (p.shift v).goBack (m.shift v) = (p.goBack m).shift v := by
  unfold goBack
  rw [← Machine.rapidXY_shift, ← Machine.retract_shift]
  rfl

theorem ringStart_shift (w : Offset ℝ) : (p.shift v).ringStart w = (p.ringStart w).shift v :=
  p.origin.shift_comm v w

theorem ring_shift (z : ℝ) (w : Offset ℝ) :
    (p.shift v).ring z (m.shift v) w = (p.ring z m w).shift v := by
  unfold ring
  simp only [ringStart_shift]
  exact p.follow_shift v m ⟨p.ringStart w, p.ringStart w, p.order.center.sub w,
    p.order.turn.isClockwise⟩ (.level z)

theorem nest_shift (z : ℝ) (rings : List (Offset ℝ)) :
    (p.shift v).nest z (m.shift v) rings = (p.nest z m rings).shift v := by
  cases rings with
  | nil => rfl
  | cons w rest =>
    have hstart (w : Offset ℝ) : (p.shift v).stretch.point ((p.shift v).ringStart w) =
        (p.stretch.point (p.ringStart w)).shift v := by
      rw [ringStart_shift]
      exact p.stretch.shift_point v _
    simp only [nest, ring_shift]
    refine List.foldl_hom (Machine.shift · v) fun m w => ?_
    rw [hstart, Machine.lineTo_shift, ring_shift]

theorem pocket_shift (z : ℝ) : (p.shift v).pocket z (m.shift v) = (p.pocket z m).shift v := by
  have hnest := p.nest_shift v m z p.rings
  have hrapid := Machine.rapidXY_shift ((p.nest z m p.rings).rapidZ p.tool.safeZ) v p.origin
  rw [← Machine.rapidZ_shift, ← hnest] at hrapid
  exact hrapid

/-! ## Passes -/

theorem sink_shift (z : ℝ) :
    (p.shift v).sink z (m.shift v) = ((p.sink z m).1, (p.sink z m).2.shift v) := by
  have hplunge : (p.shift v).order.passes.plunge = p.order.passes.plunge := rfl
  unfold sink
  rw [hplunge]
  dsimp only
  split
  · rw [Machine.plungeTo_shift]
  · rfl

/-- **A pass is cut elsewhere, to the same depth.** -/
theorem pass_shift (z : ℝ) :
    (p.shift v).pass z (m.shift v) = ((p.pass z m).1, (p.pass z m).2.shift v) := by
  have hfollow (d : Depth ℝ) (m : Machine ℝ) :
      (p.shift v).follow (p.shift v).outline d (m.shift v) = (p.follow p.outline d m).shift v :=
    p.follow_shift v m p.outline d
  have hcut : (p.shift v).order.cut = p.order.cut := rfl
  unfold pass
  rw [hcut, sink_shift]
  cases p.order.cut with
  | profile => simp only [hfollow]
  | pocket => simp only [pocket_shift]
  | spiral => exact congrArg _ (hfollow _ m)
  | spiralWithBottom => exact congrArg _ (hfollow _ m)

theorem between_shift (z : ℝ) : (p.shift v).between z (m.shift v) = (p.between z m).shift v := by
  have hcut : (p.shift v).order.cut = p.order.cut := rfl
  simp only [between, hcut, closed_shift, goBack_shift, Machine.plungeTo_shift,
    apply_ite (Machine.shift · v)]

/-- **Passes are cut elsewhere, to the same depth.** -/
theorem passes_shift (n : ℕ) (z : ℝ) :
    (p.shift v).passes n z (m.shift v) = ((p.passes n z m).1, (p.passes n z m).2.shift v) := by
  have hreach (k : ℕ) :
      (p.shift v).reach k z (m.shift v) = ((p.reach k z m).1, (p.reach k z m).2.shift v) := by
    induction k with
    | zero => rfl
    | succ k ih => rw [reach_succ, reach_succ, ih, pass_shift, between_shift]
  cases n with
  | zero => rfl
  | succ n => rw [passes_succ, passes_succ, hreach, pass_shift]

theorem bottom_shift (z : ℝ) : (p.shift v).bottom z (m.shift v) = (p.bottom z m).shift v := by
  have hcut : (p.shift v).order.cut = p.order.cut := rfl
  unfold bottom
  rw [hcut]
  cases p.order.cut with
  | profile => rfl
  | pocket => rfl
  | spiral => rfl
  | spiralWithBottom =>
    simp only [closed_shift, goBack_shift, Machine.plungeTo_shift, ← apply_ite (Machine.shift · v)]
    exact p.follow_shift v _ p.outline (.level z)

/-! ## The whole plan -/

theorem opened_shift :
    (p.shift v).opened (m.shift v) = ((p.opened m).1, (p.opened m).2.shift v) := by
  have hnoted : (p.shift v).noted (m.shift v) = (p.noted m).shift v := rfl
  have hfrom : (p.shift v).order.passes.fromZero = p.order.passes.fromZero := rfl
  unfold opened surface
  rw [hnoted, hfrom, Machine.shift_position, Position.shift_z]
  split
  · rw [Machine.rapidZ_shift]
  · rfl

/-- **A plan is carried out elsewhere.** -/
theorem carryOut_shift : (p.shift v).carryOut (m.shift v) = (p.carryOut m).shift v := by
  have hpasses : (p.shift v).order.passes = p.order.passes := rfl
  have hfinished : (p.shift v).finished (m.shift v) =
      ((p.finished m).1, (p.finished m).2.shift v) := by
    unfold finished
    rw [opened_shift, hpasses, passes_shift]
  rw [carryOut_eq, carryOut_eq, hfinished, hpasses, bottom_shift, Machine.shift_position,
    Position.shift_z, Machine.pullUp_shift]

end ArcPlan

/-! ## Orders -/

namespace ArcOrder

variable (o : ArcOrder ℝ) (v : Offset ℝ) (tool : Tool ℝ) (m : Machine ℝ)

/-- Any place will do for an end. -/
theorem check_shift : (o.shift v).check tool = o.check tool := rfl

theorem ofOrder_shift :
    ArcPlan.ofOrder (o.shift v) tool (m.shift v) = (ArcPlan.ofOrder o tool m).shift v := rfl

theorem execute_shift (command : CommandKind) :
    (o.shift v).execute command tool (m.shift v) = (o.execute command tool m).shift v := by
  have hcheck := o.check_shift v tool
  cases hc : o.check tool with
  | error cause =>
    rw [hc] at hcheck
    rw [execute_of_check_error hc, execute_of_check_error hcheck]
    rfl
  | ok u =>
    rw [hc] at hcheck
    rw [execute_of_check hc, execute_of_check hcheck, ofOrder_shift, ArcPlan.carryOut_shift]
    rfl

theorem executeMade_shift (command : CommandKind) (made : Except (Cause ℝ) (ArcOrder ℝ)) :
    executeMade command tool (made.map (·.shift v)) (m.shift v) =
      (executeMade command tool made m).shift v := by
  cases made with
  | error cause => rfl
  | ok o => exact o.execute_shift v tool m command

end ArcOrder

end Toolpath
