import Toolpath.Proofs.Rectangle.Laps
import Toolpath.Proofs.Shift

/-!
# Shifting a rectangle

A rectangle without a center of its own is laid out about the place where the tool is, so its layout
moves along with the machine: the start corner, from which all corners of all laps are counted, and
the pivot, about which they are turned.

* `Layout.ofRectangle_shift` — the layout moves along
* `Layout.corner_shift` — and so do its corners
* `Rectangle.pass_shift`, `Rectangle.repeatPass_shift` — one pass, all passes
* `Rectangle.carryOut_shift`, `Rectangle.execute_shift` — the whole rectangle
-/

namespace Toolpath

open Scalar RealScalar

/-- The same layout at another place. -/
def Layout.shift {α : Type} [Scalar α] (l : Layout α) (v : Offset α) : Layout α :=
  { l with base := l.base.shift v, pivot := l.pivot.shift v }

/-! ## Layouts -/

namespace Layout

variable (l : Layout ℝ) (v : Offset ℝ) (m : Machine ℝ)

/-- **The layout moves along**, or cannot be made for the same cause. -/
theorem ofRectangle_shift {r : Rectangle ℝ} (hx : r.centerX = none) (hy : r.centerY = none)
    (position : Point ℝ) (tool : Tool ℝ) :
    ofRectangle r (position.shift v) tool = (ofRectangle r position tool).map (·.shift v) := by
  unfold ofRectangle
  rw [hx, hy]
  refine bind_eq_map fun lenX => bind_eq_map fun lenY => bind_eq_map fun rotation =>
    bind_eq_map fun _ => ?_
  by_cases hn : r.passes.repetitions = 0
  · simp only [if_pos hn]
    rfl
  · simp only [if_neg hn]
    refine bind_eq_map fun width => bind_eq_map fun height => ?_
    -- the place is that of the tool or some way from it, and the rest is about lengths
    cases r.anchor with
    | center =>
      simp only [requireFinite_real, pure_bind, Option.getD_none]
      refine bind_eq_map fun laps => ?_
      simp only [Except.map, pure, Except.pure, shift, Point.shift, sub_add_eq_add_sub]
    | corner c =>
      simp only [pure_bind]
      refine bind_eq_map fun laps => ?_
      simp only [Except.map, pure, Except.pure, shift, Point.shift, sub_add_eq_add_sub]

theorem unrotated_shift (inset : ℝ) (c : Corner) :
    (l.shift v).unrotated inset c = (l.unrotated inset c).shift v := by
  cases c <;> simp only [unrotated, shift, Point.shift] <;> congr 1 <;> ring

theorem corner_shift (inset : ℝ) (c : Corner) :
    (l.shift v).corner inset c = (l.corner inset c).shift v := by
  have hrotation : (l.shift v).rotation = l.rotation := rfl
  have hpivot : (l.shift v).pivot = l.pivot.shift v := rfl
  simp only [corner, hrotation, hpivot, unrotated_shift, Point.shift_rotateAbout_shift,
    apply_ite (Point.shift · v)]

theorem entry_shift (lap : ℕ) : (l.shift v).entry lap = (l.entry lap).shift v :=
  l.corner_shift v (l.inset lap) .fourth

theorem lapCorners_shift (lap : ℕ) :
    (l.shift v).lapCorners lap = (l.lapCorners lap).map (·.shift v) := by
  unfold lapCorners
  rw [List.map_map]
  exact List.map_congr_left fun c _ => l.corner_shift v (l.inset lap) c

/-! ## Laps -/

theorem lap_shift (lap : ℕ) : (l.shift v).lap lap (m.shift v) = (l.lap lap m).shift v := by
  unfold Layout.lap
  rw [lapCorners_shift, List.foldl_map]
  exact List.foldl_hom (Machine.shift · v) fun m p => m.lineTo_shift v p

theorem rampLap_shift (lap : ℕ) (z plunge : ℝ) :
    (l.shift v).rampLap lap z plunge (m.shift v) = (l.rampLap lap z plunge m).shift v := by
  unfold rampLap
  rw [lapCorners_shift, List.zip_map_left, List.foldl_map]
  exact List.foldl_hom (Machine.shift · v) fun m pf =>
    m.emit_shift v ((Move.linearXY pf.1 m.feeds.xyPerMinute).withZ (z + plunge * pf.2))

theorem innerLaps_shift : (l.shift v).innerLaps (m.shift v) = (l.innerLaps m).shift v := by
  refine List.foldl_hom (Machine.shift · v) fun m j => ?_
  rw [entry_shift, Machine.lineTo_shift, lap_shift]

end Layout

/-! ## Passes -/

namespace Rectangle

variable (r : Rectangle ℝ) (l : Layout ℝ) (tool : Tool ℝ) (v : Offset ℝ) (m : Machine ℝ)

/-- **A pass is cut elsewhere, to the same depth.** -/
theorem pass_shift (isFirst : Bool) (z : ℝ) :
    r.pass (l.shift v) isFirst z (m.shift v) =
      ((r.pass l isFirst z m).1, (r.pass l isFirst z m).2.shift v) := by
  unfold pass
  dsimp only
  simp only [Layout.rampLap_shift, Layout.lap_shift, Layout.innerLaps_shift, Machine.plungeTo_shift,
    ← apply_ite (Machine.shift · v)]
  split
  · split <;> rfl
  · rfl

theorem goBack_shift (isLast : Bool) (z : ℝ) :
    goBack tool (l.shift v) isLast z (m.shift v) = (goBack tool l isLast z m).shift v := by
  simp only [goBack, Layout.entry_shift, Machine.shift_position, Position.shift_over_shift,
    Machine.retract_shift, Machine.rapidXY_shift, Machine.plungeTo_shift,
    apply_ite (Machine.shift · v)]

theorem repeatPass_shift (n : ℕ) (isFirst : Bool) (z : ℝ) :
    r.repeatPass tool (l.shift v) n isFirst z (m.shift v) =
      (r.repeatPass tool l n isFirst z m).shift v := by
  induction n generalizing isFirst z m with
  | zero => rfl
  | succ n ih =>
    simp only [repeatPass]
    rw [pass_shift, goBack_shift]
    exact ih _ _ _

/-! ## The whole rectangle -/

theorem pulledUp_shift :
    r.pulledUp tool (l.shift v) (m.shift v) = (r.pulledUp tool l m).shift v := by
  unfold pulledUp passed
  rw [Layout.entry_shift, Machine.shift_position, Position.shift_z, Machine.approach_shift,
    repeatPass_shift, Machine.pullUp_shift]

/-- **A rectangle is cut elsewhere.** -/
theorem carryOut_shift :
    r.carryOut tool (l.shift v) (m.shift v) = (r.carryOut tool l m).shift v := by
  simp only [carryOut_eq, pulledUp_shift, Machine.shift_position, Position.shift_point,
    Machine.rapidXY_shift, apply_ite (Machine.shift · v)]

theorem execute_shift {r : Rectangle ℝ} (hx : r.centerX = none) (hy : r.centerY = none) :
    r.execute tool (m.shift v) = (r.execute tool m).shift v := by
  unfold execute
  rw [Machine.shift_position, Position.shift_point, Layout.ofRectangle_shift v hx hy]
  cases Layout.ofRectangle r m.position.point tool with
  | error cause => rfl
  | ok l => exact congrArg (Outcome.mk · none) (r.carryOut_shift l tool v m)

end Rectangle

end Toolpath
