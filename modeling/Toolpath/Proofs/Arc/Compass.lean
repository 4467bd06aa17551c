import Toolpath.Proofs.Arc.Cover
import Toolpath.Proofs.Arc.Samples

/-!
# Arcs between bearings

Where an arc starts and ends may be known as bearings from its center. Then the angle that it goes
through is the one from the first bearing to the second, in its sense, and every point of it lies at
a bearing in between. This is exact arithmetic.

* `ArcOrder.arcFrom` — the arc of an order that is cut from a point
* `Arc.sweep_of_bearings` — its sweep is the angle between the bearings
* `Arc.point_of_bearing` — its points, by their bearings
-/

namespace Toolpath

open Scalar RealScalar

section

variable {α : Type} [Scalar α]

/-- The arc of an order that is cut from a point. -/
def ArcOrder.arcFrom (o : ArcOrder α) (start : Point α) : Arc α :=
  ⟨start, o.finish, o.center, o.turn.isClockwise⟩

/-- It is the arc that a plan of the order goes along. -/
theorem ArcPlan.outline_ofOrder (o : ArcOrder α) (tool : Tool α) (m : Machine α) :
    (ofOrder o tool m).outline = o.arcFrom m.position.point := rfl

end

namespace Arc

variable {a : Arc ℝ} {r first : ℝ}

/-- An arc that starts at a bearing has its points at others. -/
theorem point_of_bearing (hstart : a.centerPoint.wayTo a.start = Bearing.offset r first)
    (angle : ℝ) :
    a.start.turned a.centerPoint a.clockwise angle = a.centerPoint.shift
      (Bearing.offset r (if a.clockwise then first + angle else first - angle)) := by
  rw [Point.turned, hstart, Bearing.offset_turned]

/-- **The sweep of an open arc is the angle from the bearing of its start to that of its end.** -/
theorem sweep_of_bearings {angle : ℝ} (hr : 0 < r) (hopen : ¬a.Closed)
    (hstart : a.centerPoint.wayTo a.start = Bearing.offset r first)
    (hfinish : a.centerPoint.wayTo a.finish =
      Bearing.offset r (if a.clockwise then first + angle else first - angle))
    (hnonneg : 0 ≤ angle) (hlt : angle < 2 * Real.pi) : a.sweep = angle := by
  have hradius : 0 < a.radius := by
    rw [← a.length_wayTo_start, hstart, Bearing.length_offset, abs_of_pos hr]
    exact hr
  have hfar : a.finish ≠ a.centerPoint := by
    intro h
    have hlength := congrArg Offset.length hfinish
    rw [h, Bearing.length_offset, abs_of_pos hr] at hlength
    have hzero : (a.centerPoint.wayTo a.centerPoint).length = 0 := by
      simp [Point.wayTo, Offset.length, hypot]
    linarith
  have hturns : a.TurnsTo angle := by
    refine ⟨hnonneg, hlt, 1, zero_le_one, ?_⟩
    rw [Point.wayTo_turned, hstart, Bearing.offset_turned, hfinish, Offset.scale_one]
  exact (turnsTo_of_open hradius hopen).unique hradius hfar hturns

end Arc

end Toolpath
