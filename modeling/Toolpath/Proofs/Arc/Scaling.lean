import Mathlib.Analysis.SpecialFunctions.Complex.Arg
import Toolpath.Proofs.Arc.Cuts
import Toolpath.Proofs.Arc.Turning

/-!
# Scaling before and after

An order that stretches both axes by the same proportion cuts what the order of the stretched shape
cuts, in exact arithmetic. The rings of a pocket are laid out before the stretch, closer together by
the proportion, and come out where the rings of the stretched circle are. A stretch that mirrors one
axis turns the sense of the arc round, and so does the order of the mirrored shape.

* `ArcOrder.prescaled` — the order of the stretched shape
* `Pocket.rings_offset` — its rings are the stretched rings
* `ArcPlan.Prescales` — what two plans need to have in common to cut the same, step by step
* `ArcOrder.execute_prescaled` — the two orders leave the same machine, queue and all
-/

namespace Toolpath

open Scalar RealScalar

section

variable {α : Type} [Scalar α]

/-- The stretch of an order that is cut from a point. -/
def ArcOrder.stretchFrom (o : ArcOrder α) (start : Point α) : Stretch α := ⟨start, o.scale⟩

/-- The order of the shape as it is after the stretch. -/
def ArcOrder.prescaled (o : ArcOrder α) (start : Point α) : ArcOrder α where
  finish := (o.stretchFrom start).point o.finish
  center := (o.stretchFrom start).offset o.center
  turn :=
    if decide (o.scale.x < 0) != decide (o.scale.y < 0) then o.turn.reversed else o.turn
  passes := o.passes
  scale := ⟨1, 1⟩
  cut := o.cut

omit [Scalar α] in
theorem Turn.isClockwise_reversed (t : Turn) : t.reversed.isClockwise = !t.isClockwise := by
  cases t <;> rfl

/-- A mirrored arc turns the same way as the arc of the mirrored shape. -/
theorem ArcOrder.clockwise_prescaled (o : ArcOrder α) (tool : Tool α) (m : Machine α) :
    (ArcPlan.ofOrder (o.prescaled m.position.point) tool m).clockwise =
      (ArcPlan.ofOrder o tool m).clockwise := by
  have hmirrored : (ArcPlan.ofOrder (o.prescaled m.position.point) tool m).mirrored = false :=
    bne_self_eq_false _
  unfold ArcPlan.clockwise
  rw [hmirrored, Bool.bne_false]
  show (if _ then o.turn.reversed else o.turn).isClockwise =
    (o.turn.isClockwise != (decide (o.scale.x < 0) != decide (o.scale.y < 0)))
  cases decide (o.scale.x < 0) != decide (o.scale.y < 0) with
  | true => rw [if_pos rfl, Turn.isClockwise_reversed, Bool.bne_true]
  | false => rw [if_neg Bool.false_ne_true, Bool.bne_false]

end

/-! ## Stretched rings -/

theorem Offset.polar_atan2 {v : Offset ℝ} (hv : v.length ≠ 0) (r : ℝ) :
    Offset.polar r (atan2 v.y v.x) = v.scale (r / v.length) (r / v.length) := by
  obtain ⟨x, y⟩ := v
  have hnorm : ‖(⟨x, y⟩ : ℂ)‖ = (⟨x, y⟩ : Offset ℝ).length := by
    show ‖(⟨x, y⟩ : ℂ)‖ = √(x ^ 2 + y ^ 2)
    rw [Complex.norm_def, Complex.normSq_mk]
    ring_nf
  have hne : (⟨x, y⟩ : ℂ) ≠ 0 := by
    rw [← norm_ne_zero_iff, hnorm]
    exact hv
  have hcos := Complex.cos_arg hne
  have hsin := Complex.sin_arg (⟨x, y⟩ : ℂ)
  rw [hnorm] at hcos hsin
  show (⟨r * Real.cos (Complex.arg ⟨x, y⟩), r * Real.sin (Complex.arg ⟨x, y⟩)⟩ : Offset ℝ) = _
  rw [hcos, hsin]
  simp only [Offset.scale]
  congr 1 <;> ring

namespace Stretch

variable {s : Stretch ℝ} {k : ℝ}

theorem point_origin (s : Stretch ℝ) : s.point s.origin = s.origin := by
  obtain ⟨⟨x, y⟩, scale⟩ := s
  simp [point, Point.shift, Point.wayTo, offset, Offset.scale]

theorem offset_identity (c : Point ℝ) (v : Offset ℝ) : (identity c).offset v = v := by
  simp only [identity, offset, Offset.scale, real_one, mul_one]

theorem point_identity (c x : Point ℝ) : (identity c).point x = x := by
  have hway : (identity c).offset (c.wayTo x) = c.wayTo x := offset_identity c _
  show c.shift ((identity c).offset (c.wayTo x)) = x
  rw [hway]
  simp only [Point.shift, Point.wayTo, add_sub_cancel]

theorem offset_sub (s : Stretch ℝ) (v w : Offset ℝ) :
    s.offset (v.sub w) = (s.offset v).sub (s.offset w) := by
  simp only [offset, Offset.scale, Offset.sub]
  congr 1 <;> ring

/-- A way of a given length in the direction of a stretched offset is the stretched way, which was
shorter by the proportion. -/
theorem offset_polar (hk : 0 < k) (hx : |s.scale.x| = k) (hy : |s.scale.y| = k) {v : Offset ℝ}
    (hv : v.length ≠ 0) (r : ℝ) :
    Offset.polar r (atan2 (s.offset v).y (s.offset v).x) =
      s.offset (Offset.polar (r / k) (atan2 v.y v.x)) := by
  have hlength := length_offset hk hx hy v
  have hsv : (s.offset v).length ≠ 0 := by
    rw [hlength]
    exact mul_ne_zero hk.ne' hv
  rw [Offset.polar_atan2 hsv, Offset.polar_atan2 hv, offset_scale, hlength, div_div]

end Stretch

namespace Pocket

variable {s : Stretch ℝ} {k : ℝ}

theorem ringBound_mul (hk : 0 < k) (radius step : ℝ) :
    ringBound (k * radius) step = ringBound radius (step / k) := by
  have hstep : 0 < step ↔ 0 < step / k := by rw [lt_div_iff₀ hk, zero_mul]
  have hradius : 0 < k * radius ↔ 0 < radius := mul_pos_iff_of_pos_left hk
  have hcount : k * radius / step = radius / (step / k) := by
    rw [div_div_eq_mul_div, mul_comm]
  unfold ringBound
  rw [real_zero, hcount]
  simp only [hstep, hradius]

/-- **The rings of a stretched circle are the stretched rings**, which lie closer together before
the stretch by its proportion. -/
theorem rings_offset (hk : 0 < k) (hx : |s.scale.x| = k) (hy : |s.scale.y| = k) (limit : ℕ)
    (center : Offset ℝ) (step : ℝ) :
    rings limit (s.offset center) step = (rings limit center (step / k)).map s.offset := by
  have hlength := Stretch.length_offset hk hx hy
  unfold rings
  dsimp only
  rw [hlength, ringBound_mul hk]
  by_cases hzero : center.length = 0
  · -- a circle of no radius has no ring, before the stretch or after it
    have hnone : ringBound center.length (step / k) = 0 := by
      rw [ringBound, real_zero, if_neg fun h => h.2.ne' hzero]
    have hmin : Nat.min limit 0 = 0 := Nat.min_zero limit
    rw [hnone, hmin]
    rfl
  · let inward := Offset.polar (step / k) (atan2 center.y center.x)
    have hring : (fun j : ℕ => (Offset.polar step (atan2 (s.offset center).y
        (s.offset center).x)).scale (Scalar.ofNat j) (Scalar.ofNat j)) =
          s.offset ∘ fun j : ℕ => inward.scale (Scalar.ofNat j) (Scalar.ofNat j) := by
      funext j
      rw [Stretch.offset_polar hk hx hy hzero]
      exact (s.offset_scale inward _).symm
    have hinside : (fun v : Offset ℝ => decide (v.length < k * center.length)) ∘ s.offset =
        fun v => decide (v.length < center.length) := by
      funext v
      rw [Function.comp_apply, hlength, decide_eq_decide]
      exact mul_lt_mul_iff_right₀ hk
    rw [hring, ← List.map_map, List.takeWhile_map, hinside]

end Pocket

/-! ## Plans that cut the same -/

namespace ArcPlan

/-- One plan cuts the stretched shape of another: what it does with a shape that is stretched
already is what the other does with the shape. -/
structure Prescales (q p : ArcPlan ℝ) : Prop where
  tool_eq : q.tool = p.tool
  origin_eq : q.origin = p.origin
  passes_eq : q.order.passes = p.order.passes
  cut_eq : q.order.cut = p.order.cut
  clockwise_eq : q.clockwise = p.clockwise
  direct : p.segmented = false ∧ q.segmented = false
  closed_iff : q.Closed ↔ p.Closed
  point_eq : ∀ x, q.stretch.point x = x
  offset_eq : ∀ v, q.stretch.offset v = v
  finish_eq : q.order.finish = p.stretch.point p.order.finish
  center_eq : q.order.center = p.stretch.offset p.order.center
  rings_eq : q.rings = p.rings.map p.stretch.offset

namespace Prescales

variable {p q : ArcPlan ℝ} (h : q.Prescales p)

include h

/-- **An arc that is stretched already is followed by the same move.** -/
theorem follow_eq {a b : Arc ℝ} (hfinish : b.finish = p.stretch.point a.finish)
    (hcenter : b.center = p.stretch.offset a.center) (d : Depth ℝ) (m : Machine ℝ) :
    q.follow b d m = p.follow a d m := by
  obtain ⟨hp, hq⟩ := h.direct
  unfold follow circularMove
  rw [hp, hq, h.clockwise_eq, h.point_eq, h.offset_eq, hfinish, hcenter]
  rfl

theorem outline_eq (d : Depth ℝ) (m : Machine ℝ) :
    q.follow q.outline d m = p.follow p.outline d m :=
  h.follow_eq h.finish_eq h.center_eq d m

theorem ringStart_eq (v : Offset ℝ) :
    q.ringStart (p.stretch.offset v) = p.stretch.point (p.ringStart v) := by
  have horigin : p.stretch.point p.origin = p.origin := p.stretch.point_origin
  unfold ringStart
  rw [Stretch.point_shift, horigin, h.origin_eq]

theorem ring_eq (z : ℝ) (m : Machine ℝ) (v : Offset ℝ) :
    q.ring z m (p.stretch.offset v) = p.ring z m v := by
  refine h.follow_eq (h.ringStart_eq v) ?_ _ m
  show q.order.center.sub _ = p.stretch.offset (p.order.center.sub v)
  rw [h.center_eq, Stretch.offset_sub]

/-- The stretched rings are cut like the rings, one after the other. -/
theorem nest_eq (z : ℝ) (m : Machine ℝ) (rings : List (Offset ℝ)) :
    q.nest z m (rings.map p.stretch.offset) = p.nest z m rings := by
  cases rings with
  | nil => rfl
  | cons v rest =>
    simp only [List.map_cons, nest, List.foldl_map, h.ring_eq, h.ringStart_eq, h.point_eq]

theorem goBack_eq (m : Machine ℝ) : q.goBack m = p.goBack m := by
  unfold goBack
  rw [h.tool_eq, h.origin_eq]

theorem pocket_eq (z : ℝ) (m : Machine ℝ) : q.pocket z m = p.pocket z m := by
  have hnest : q.nest z m q.rings = p.nest z m p.rings := by
    rw [h.rings_eq, h.nest_eq]
  show ((q.nest z m q.rings).rapidZ q.tool.safeZ).rapidXY q.origin = _
  rw [hnest, h.tool_eq, h.origin_eq]
  rfl

theorem pass_eq (z : ℝ) (m : Machine ℝ) : q.pass z m = p.pass z m := by
  have hsink : q.sink z m = p.sink z m := by
    unfold sink
    rw [h.passes_eq]
  unfold pass
  rw [h.cut_eq, hsink, h.passes_eq]
  cases p.order.cut with
  | profile => simp only [h.outline_eq]
  | pocket => simp only [h.pocket_eq]
  | spiral => simp only [h.outline_eq]
  | spiralWithBottom => simp only [h.outline_eq]

theorem between_eq (z : ℝ) (m : Machine ℝ) : q.between z m = p.between z m := by
  unfold between
  simp only [h.cut_eq, h.closed_iff, h.goBack_eq]

/-- **All passes are the same**, pass by pass. -/
theorem allPasses_eq (n : ℕ) (z : ℝ) (m : Machine ℝ) : q.passes n z m = p.passes n z m := by
  have hreach (k : ℕ) : q.reach k z m = p.reach k z m := by
    induction k with
    | zero => rfl
    | succ k ih => rw [reach_succ, reach_succ, ih, h.pass_eq, h.between_eq]
  cases n with
  | zero => rfl
  | succ n => rw [passes_succ, passes_succ, hreach, h.pass_eq]

theorem bottom_eq (z : ℝ) (m : Machine ℝ) : q.bottom z m = p.bottom z m := by
  unfold bottom
  rw [h.cut_eq]
  simp only [h.closed_iff, h.goBack_eq, h.outline_eq]

/-- **Two such plans come to the same**, from any machine. -/
theorem carryOut_eq (m : Machine ℝ) : q.carryOut m = p.carryOut m := by
  have hnoted : q.noted m = p.noted m := by
    unfold noted
    rw [h.passes_eq]
  have hopened : q.opened m = p.opened m := by
    unfold opened surface
    rw [hnoted, h.passes_eq]
  have hfinished : q.finished m = p.finished m := by
    unfold finished
    rw [hopened, h.passes_eq, h.allPasses_eq]
  rw [ArcPlan.carryOut_eq, ArcPlan.carryOut_eq, hfinished, h.bottom_eq, h.passes_eq]

end Prescales

end ArcPlan

/-! ## The two orders -/

namespace ArcOrder

/-- A proportion that is checked is not zero. -/
theorem scale_ne_zero_of_validate {o : ArcOrder ℝ} {u : Unit} (h : o.validate = .ok u) :
    o.scale.x ≠ 0 ∧ o.scale.y ≠ 0 := by
  obtain ⟨-, hx, hy, -⟩ := validate_ok_iff.mp h
  exact ⟨hx, hy⟩

theorem prescales {o : ArcOrder ℝ} {tool : Tool ℝ} {m : Machine ℝ} {k : ℝ} (hk : 0 < k)
    (hx : |o.scale.x| = k) (hy : |o.scale.y| = k) (ht : m.transforms.anyActive = false)
    (hclosed : m.position.point.Near (o.prescaled m.position.point).finish ↔
      m.position.point.Near o.finish) :
    (ArcPlan.ofOrder (o.prescaled m.position.point) tool m).Prescales
      (ArcPlan.ofOrder o tool m) := by
  have hone : |(@OfNat.ofNat ℝ 1 (instOfNatScalar 1))| = 1 := by
    rw [real_one, abs_one]
  have hstep : o.ringStep tool = tool.stepOver / k := by
    show tool.stepOver / Max.max |o.scale.x| |o.scale.y| = _
    rw [hx, hy, max_self]
  have hstep' : (o.prescaled m.position.point).ringStep tool = tool.stepOver := by
    show tool.stepOver / Max.max |(@OfNat.ofNat ℝ 1 (instOfNatScalar 1))|
      |(@OfNat.ofNat ℝ 1 (instOfNatScalar 1))| = _
    rw [hone, max_self, div_one]
  have hdirect (x y : ℝ) (h : |x| = |y|) : (Scalar.abs x != Scalar.abs y) = false := by
    rw [← Bool.not_eq_true, bne_real, not_not]
    exact h
  refine
    { tool_eq := rfl
      origin_eq := rfl
      passes_eq := rfl
      cut_eq := rfl
      clockwise_eq := ?_
      direct := ⟨?_, ?_⟩
      closed_iff := hclosed
      point_eq := ?_
      offset_eq := ?_
      finish_eq := rfl
      center_eq := rfl
      rings_eq := ?_ }
  · exact o.clockwise_prescaled tool m
  · show (Scalar.abs o.scale.x != Scalar.abs o.scale.y || m.transforms.anyActive) = false
    rw [hdirect _ _ (hx.trans hy.symm), ht, Bool.or_false]
  · show (_ != _ || m.transforms.anyActive) = false
    rw [ht, Bool.or_false]
    exact hdirect _ _ rfl
  · intro x
    exact Stretch.point_identity m.position.point x
  · intro v
    exact Stretch.offset_identity m.position.point v
  · show Pocket.rings _ _ ((o.prescaled m.position.point).ringStep tool) = _
    rw [hstep']
    show Pocket.rings _ ((o.stretchFrom m.position.point).offset o.center) _ = _
    rw [Pocket.rings_offset hk hx hy, ← hstep]
    rfl

/-- **Scaling and pre-scaling are the same.** An order that is stretched evenly about the start, and
the order of the stretched shape, leave the same machine: the same moves in the queue, and all else.
The rings of the one are the stretched rings of the other. -/
theorem execute_prescaled {o : ArcOrder ℝ} {tool : Tool ℝ} {m : Machine ℝ} {command : CommandKind}
    (ht : m.transforms.anyActive = false) (heven : |o.scale.x| = |o.scale.y|)
    (haccepted : (o.execute command tool m).rejection = none)
    (haccepted' : ((o.prescaled m.position.point).execute command tool m).rejection = none)
    (hclosed : m.position.point.Near (o.prescaled m.position.point).finish ↔
      m.position.point.Near o.finish) :
    (o.prescaled m.position.point).execute command tool m = o.execute command tool m ∧
      (ArcPlan.ofOrder (o.prescaled m.position.point) tool m).rings =
        (ArcPlan.ofOrder o tool m).rings.map (o.stretchFrom m.position.point).offset := by
  have hc : o.check tool = .ok () := check_of_accepted haccepted
  have hc' : (o.prescaled m.position.point).check tool = .ok () := check_of_accepted haccepted'
  obtain ⟨_, hv, -⟩ := exists_of_bind_eq_ok hc
  have hk : 0 < |o.scale.x| := abs_pos.mpr (scale_ne_zero_of_validate hv).1
  have h : (ArcPlan.ofOrder (o.prescaled m.position.point) tool m).Prescales
      (ArcPlan.ofOrder o tool m) := prescales hk rfl heven.symm ht hclosed
  refine ⟨?_, h.rings_eq⟩
  rw [execute_of_check hc, execute_of_check hc', h.carryOut_eq]

/-! ### A mirrored pocket -/

/-- A pocket passes its check when its steps are counted. -/
theorem check_of_passCount {o : ArcOrder ℝ} {tool : Tool ℝ} (hcut : o.cut = .pocket)
    (hr : o.passes.repetitions ≠ 0) (hx : o.scale.x ≠ 0) (hy : o.scale.y ≠ 0)
    (hn : ¬o.center.Negligible) {n : ℕ}
    (hcount : passCount o.center.length (o.ringStep tool) = .ok n) : o.check tool = .ok () := by
  unfold check
  rw [validate_ok_iff.mpr ⟨hr, hx, hy, hn⟩, hcut]
  show passCount o.center.length (o.ringStep tool) >>= _ = _
  rw [hcount]
  rfl

/-- A pocket passes its check when its rings lie apart and are not too many. -/
theorem check_of_pocket {o : ArcOrder ℝ} {tool : Tool ℝ} (hcut : o.cut = .pocket)
    (hr : o.passes.repetitions ≠ 0) (hx : o.scale.x ≠ 0) (hy : o.scale.y ≠ 0)
    (hn : ¬o.center.Negligible) (hstep : 0 < o.ringStep tool)
    (hfew : |o.center.length| ≤ maxPasses * o.ringStep tool) : o.check tool = .ok () := by
  obtain ⟨n, hcount⟩ := exists_passCount hstep hfew
  exact check_of_passCount hcut hr hx hy hn hcount

/-- A pocket around a center to the right, twice as wide to the left. -/
noncomputable def mirroredPocket : ArcOrder ℝ where
  finish := ⟨0, 0⟩
  center := ⟨1, 0⟩
  turn := .clockwise
  passes := ⟨-1, 2, false, false⟩
  scale := ⟨-2, 2⟩
  cut := .pocket

/-- A machine at rest over the origin, on the surface. -/
noncomputable def overOrigin : Machine ℝ := .atRest ⟨0, 0, 0⟩ .standard .none

theorem mirroredPocket_check : mirroredPocket.check .standard = .ok () := by
  have hcenter : ¬mirroredPocket.center.Negligible := not_negligible_alongX (by norm_num)
  have hlength : mirroredPocket.center.length = 1 := (length_alongX 1).trans abs_one
  have hstep : mirroredPocket.ringStep .standard = 0.1125 := by
    show (Tool.standard : Tool ℝ).stepOver / Max.max |(-2 : ℝ)| |(2 : ℝ)| = 0.1125
    rw [stepOver_standard, abs_neg, max_self]
    norm_num
  refine check_of_pocket rfl (by decide) ?_ ?_ hcenter ?_ ?_
  · exact neg_ne_zero.mpr two_ne_zero
  · exact two_ne_zero
  · rw [hstep]
    norm_num
  · rw [hlength, hstep, maxPasses]
    norm_num

/-- Its shape after the stretch: a circle of twice the radius, to the left. -/
theorem mirroredPocket_prescaled :
    mirroredPocket.prescaled overOrigin.position.point =
      ⟨⟨0, 0⟩, ⟨-2, 0⟩, .counterclockwise, ⟨-1, 2, false, false⟩, ⟨1, 1⟩, .pocket⟩ := by
  simp [prescaled, stretchFrom, Stretch.point, Stretch.offset, Offset.scale, Point.shift,
    Point.wayTo, Position.point, overOrigin, Machine.atRest, mirroredPocket, Turn.reversed]

theorem mirroredPocket_prescaled_check :
    (mirroredPocket.prescaled overOrigin.position.point).check .standard = .ok () := by
  rw [mirroredPocket_prescaled]
  have hcenter : ¬(⟨-2, 0⟩ : Offset ℝ).Negligible := not_negligible_alongX (by norm_num)
  have hlength : (⟨-2, 0⟩ : Offset ℝ).length = 2 := by
    rw [length_alongX, abs_neg, abs_two]
  have hstep : (Tool.standard : Tool ℝ).stepOver / Max.max |(1 : ℝ)| |(1 : ℝ)| = 0.225 := by
    rw [stepOver_standard, max_self]
    norm_num
  refine check_of_pocket rfl (by decide) one_ne_zero one_ne_zero hcenter ?_ ?_
  · show 0 < (Tool.standard : Tool ℝ).stepOver / Max.max |(1 : ℝ)| |(1 : ℝ)|
    rw [hstep]
    norm_num
  · show |(⟨-2, 0⟩ : Offset ℝ).length| ≤
      maxPasses * ((Tool.standard : Tool ℝ).stepOver / Max.max |(1 : ℝ)| |(1 : ℝ)|)
    rw [hlength, hstep, maxPasses]
    norm_num

theorem mirroredPocket_execute_prescaled :
    (overOrigin.transforms.anyActive = false ∧
      |mirroredPocket.scale.x| = |mirroredPocket.scale.y| ∧
      (mirroredPocket.execute .arc .standard overOrigin).rejection = none) ∧
      (mirroredPocket.prescaled overOrigin.position.point).execute .arc .standard overOrigin =
        mirroredPocket.execute .arc .standard overOrigin := by
  have heven : |mirroredPocket.scale.x| = |mirroredPocket.scale.y| := abs_neg 2
  have haccepted : (mirroredPocket.execute .arc .standard overOrigin).rejection = none := by
    rw [execute_of_check mirroredPocket_check]
  have haccepted' : ((mirroredPocket.prescaled overOrigin.position.point).execute .arc .standard
      overOrigin).rejection = none := by
    rw [execute_of_check mirroredPocket_prescaled_check]
  have hclosed : overOrigin.position.point.Near
      (mirroredPocket.prescaled overOrigin.position.point).finish ↔
        overOrigin.position.point.Near mirroredPocket.finish := by
    rw [mirroredPocket_prescaled]
    rfl
  exact ⟨⟨rfl, heven, haccepted⟩,
    (execute_prescaled rfl heven haccepted haccepted' hclosed).1⟩

end ArcOrder

end Toolpath
