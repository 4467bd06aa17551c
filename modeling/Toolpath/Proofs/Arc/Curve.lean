import Toolpath.Proofs.Arc.Cuts
import Toolpath.Proofs.Arc.Turning

/-!
# One curve, in one move or in segments

An arc that is evenly stretched can be cut as one circular move or as straight segments, and both
follow the same curve, in exact arithmetic. The circular move tells its sense by its kind, which a
mirroring stretch turns round. The segments know nothing of it: their points are taken on the
unstretched circle and stretched one by one. They go round the center that the circular move names,
in its sense, further and further, and end where it ends.

* `Arc.turned_start` — the points of an arc are its start, turned about its center
* `Arc.finish_towards` — its end lies in the direction of its start, turned by its sweep
* `Retraces` — segments that go round as a circular move does
* `ArcPlan.follow_retraces` — the segments of an evenly stretched arc do
-/

namespace Toolpath

open Scalar RealScalar

/-! ## Points of an arc -/

namespace Arc

variable (a : Arc ℝ)

theorem length_wayTo_start : (a.centerPoint.wayTo a.start).length = a.radius := by
  have hx : a.start.x - (a.start.x + a.center.x) = -a.center.x := by ring
  have hy : a.start.y - (a.start.y + a.center.y) = -a.center.y := by ring
  show √((a.start.x - (a.start.x + a.center.x)) ^ 2 + (a.start.y - (a.start.y + a.center.y)) ^ 2) =
    √(a.center.x ^ 2 + a.center.y ^ 2)
  rw [hx, hy, neg_sq, neg_sq]

/-- The bearing at an angle from the start. -/
noncomputable def bearingAt (angle : ℝ) : ℝ :=
  if a.clockwise then a.bearingOf a.start + angle else a.bearingOf a.start - angle

/-- **The points of an arc are its start, turned about its center.** -/
theorem turned_start (angle : ℝ) :
    a.start.turned a.centerPoint a.clockwise angle =
      a.centerPoint.shift (Bearing.offset a.radius (a.bearingAt angle)) := by
  have hstart : Bearing.offset a.radius (a.bearingOf a.start) = a.centerPoint.wayTo a.start := by
    rw [← a.length_wayTo_start]
    exact Bearing.offset_ofOffset _
  unfold Point.turned bearingAt
  rw [← hstart, Bearing.offset_turned]

/-! ## The sweep of an arc -/

/-- Unwinding adds or takes whole turns. -/
theorem exists_unwind (x : ℝ) : ∃ n : ℤ, unwind x = x + n * (2 * Real.pi) := by
  have hturn : (turn : ℝ) = 2 * Real.pi := rfl
  unfold unwind
  rw [hturn]
  split
  · exact ⟨1, by rw [Int.cast_one, one_mul]⟩
  · split
    · exact ⟨0, by rw [Int.cast_zero, zero_mul, add_zero]⟩
    · exact ⟨-1, by rw [Int.cast_neg, Int.cast_one, neg_one_mul, sub_eq_add_neg]⟩

theorem unwind_lt {x : ℝ} (hx : x < 2 * (2 * Real.pi)) : unwind x < 2 * Real.pi := by
  have hturn : (turn : ℝ) = 2 * Real.pi := rfl
  unfold unwind
  rw [hturn]
  split
  · rename_i hneg
    rw [real_zero] at hneg
    linarith
  · split
    · assumption
    · linarith

theorem unwind_nonneg {x : ℝ} (hx : -(2 * Real.pi) ≤ x) : 0 ≤ unwind x := by
  have hturn : (turn : ℝ) = 2 * Real.pi := rfl
  unfold unwind
  rw [hturn, real_zero]
  split
  · linarith
  · split <;> linarith

theorem sweep_of_closed (h : a.Closed) : a.sweep = 2 * Real.pi := by
  unfold sweep
  rw [if_pos h]
  rfl

/-- No arc goes through less than no angle. -/
theorem sweep_nonneg : 0 ≤ a.sweep := by
  have hdiff (p q : Point ℝ) : -(2 * Real.pi) ≤ a.bearingOf p - a.bearingOf q := by
    have hp : -Real.pi < a.bearingOf p := Complex.neg_pi_lt_arg _
    have hq : a.bearingOf q ≤ Real.pi := Complex.arg_le_pi _
    linarith
  unfold sweep
  dsimp only
  split
  · exact Real.two_pi_pos.le
  · split
    · exact unwind_nonneg (hdiff _ _)
    · exact unwind_nonneg (hdiff _ _)

/-- An open arc goes less than once round. -/
theorem sweep_lt (h : ¬a.Closed) : a.sweep < 2 * Real.pi := by
  have hdiff (p q : Point ℝ) : a.bearingOf p - a.bearingOf q < 2 * (2 * Real.pi) := by
    have hp : a.bearingOf p ≤ Real.pi := Complex.arg_le_pi _
    have hq : -Real.pi < a.bearingOf q := Complex.neg_pi_lt_arg _
    linarith [Real.pi_pos]
  unfold sweep
  dsimp only
  rw [if_neg h]
  split
  · exact unwind_lt (hdiff _ _)
  · exact unwind_lt (hdiff _ _)

/-- An arc goes once round at most. -/
theorem sweep_le : a.sweep ≤ 2 * Real.pi := by
  by_cases h : a.Closed
  · exact (a.sweep_of_closed h).le
  · exact (a.sweep_lt h).le

/-- An open arc goes round to the bearing of its end. -/
theorem offset_bearingAt_sweep (h : ¬a.Closed) (length : ℝ) :
    Bearing.offset length (a.bearingAt a.sweep) = Bearing.offset length (a.bearingOf a.finish) := by
  -- the two bearings differ by whole turns
  obtain ⟨n, hn⟩ : ∃ n : ℤ, a.bearingAt a.sweep = a.bearingOf a.finish + n * (2 * Real.pi) := by
    unfold bearingAt sweep
    dsimp only
    rw [if_neg h]
    by_cases hc : a.clockwise = true
    · obtain ⟨n, hn⟩ := exists_unwind (a.bearingOf a.finish - a.bearingOf a.start)
      refine ⟨n, ?_⟩
      rw [if_pos hc, if_pos hc, hn]
      ring
    · obtain ⟨n, hn⟩ := exists_unwind (a.bearingOf a.start - a.bearingOf a.finish)
      refine ⟨-n, ?_⟩
      rw [if_neg hc, if_neg hc, hn, Int.cast_neg]
      ring
  rw [hn, Bearing.offset_add_turns]

/-- **The end of an arc lies in the direction of its start, turned by its sweep.** An arc that is
closed within the tolerance goes all the way round instead, whatever the direction of its end. -/
theorem finish_towards (hr : 0 < a.radius) (h : ¬a.Closed ∨ a.finish = a.start) :
    a.finish.Towards a.centerPoint (a.start.turned a.centerPoint a.clockwise a.sweep) := by
  by_cases hc : a.Closed
  · have hsame : a.finish = a.start := h.resolve_left (not_not.mpr hc)
    refine ⟨1, zero_le_one, ?_⟩
    rw [Point.wayTo_turned, a.sweep_of_closed hc, Offset.turned_two_pi, hsame]
    simp [Offset.scale]
  · -- the end may be nearer to the center than the start, or further away
    let far := (a.centerPoint.wayTo a.finish).length
    refine ⟨far / a.radius, div_nonneg (Real.sqrt_nonneg _) hr.le, ?_⟩
    have hfinish : Bearing.offset far (a.bearingOf a.finish) = a.centerPoint.wayTo a.finish :=
      Bearing.offset_ofOffset _
    have hscale (c : ℝ) : far * c = a.radius * c * (far / a.radius) := by
      field_simp
    rw [turned_start, Point.wayTo_shift, a.offset_bearingAt_sweep hc, ← hfinish]
    show (⟨far * Real.sin _, far * Real.cos _⟩ : Offset ℝ) = ⟨_, _⟩
    rw [hscale, hscale (Real.cos _)]
    rfl

end Arc

/-- The points that are taken on an arc are its start, turned about its center, and then
stretched. -/
theorem Sampler.point_ofArc (a : Arc ℝ) (st : Stretch ℝ) (d : Depth ℝ) (arcStep feed angle : ℝ) :
    (Sampler.ofArc a st d arcStep feed).point angle =
      st.point (a.start.turned a.centerPoint a.clockwise angle) := by
  rw [a.turned_start]
  rfl

/-! ## The circular move and its segments -/

/-- Goes to a point. -/
def Move.GoesTo {α : Type} (d : Move α) (q : Point α) : Prop := d.x = some q.x ∧ d.y = some q.y

/-- Segments go round as a circular move from `start` to `finish` does. The last one goes where it
goes. The others keep a distance from its center, and go round it in its sense, each further along
than the one before, and all of them before the sweep is done. -/
structure Retraces (arc : Move ℝ) (start center finish : Point ℝ) (radius sweep : ℝ)
    (front : List (Move ℝ)) (last : Move ℝ) : Prop where
  isArc : arc.kind.isArc = true
  center_eq : ∃ v : Offset ℝ, arc.i = some v.x ∧ arc.j = some v.y ∧ center = start.shift v
  arc_goesTo : arc.GoesTo finish
  last_goesTo : last.GoesTo finish
  last_z : ∀ z, arc.z = some z → last.z = some z
  front_length : ∀ d ∈ front, ∃ q, d.GoesTo q ∧ (center.wayTo q).length = radius
  front_turned : ∃ angles : List ℝ,
    List.Forall₂
        (fun d angle => d.GoesTo (start.turned center (arc.kind == .arcClockwise) angle))
        front angles ∧
      (0 :: (angles ++ [sweep])).Pairwise (· < ·)
  sweep_le : sweep ≤ 2 * Real.pi

namespace ArcPlan

variable (p : ArcPlan ℝ)

theorem mirrored_eq :
    p.mirrored = (decide (p.stretch.scale.x < 0) != decide (p.stretch.scale.y < 0)) := by
  unfold mirrored
  rw [real_zero]
  congr 1

/-- A circular move goes to the stretched end around the stretched center, down to the final depth
if it has a word for that. -/
theorem circularMove_words (a : Arc ℝ) (d : Depth ℝ) (feed : ℝ) :
    (p.circularMove a d feed).kind =
        (if p.clockwise then .arcClockwise else .arcCounterclockwise) ∧
      (p.circularMove a d feed).GoesTo (p.stretch.point a.finish) ∧
      (p.circularMove a d feed).i = some (p.stretch.offset a.center).x ∧
      (p.circularMove a d feed).j = some (p.stretch.offset a.center).y ∧
      ∀ z, (p.circularMove a d feed).z = some z → d.final = z := by
  unfold circularMove
  cases d.ramps with
  | false => exact ⟨rfl, ⟨rfl, rfl⟩, rfl, rfl, fun z hz => nomatch hz⟩
  | true => exact ⟨rfl, ⟨rfl, rfl⟩, rfl, rfl, fun z hz => Option.some.inj hz⟩

variable {p} {a : Arc ℝ} {k : ℝ}

/-- **The stretched points of an arc are its stretched start, turned about its stretched center** in
the sense of the circular move. -/
theorem stretched_turned (hsense : a.clockwise = p.order.turn.isClockwise) (hk : 0 < k)
    (hx : |p.order.scale.x| = k) (hy : |p.order.scale.y| = k) (d : Depth ℝ) (feed angle : ℝ) :
    p.stretch.point (a.start.turned a.centerPoint a.clockwise angle) =
      (p.stretch.point a.start).turned (p.stretch.point a.centerPoint)
        ((p.circularMove a d feed).kind == .arcClockwise) angle := by
  have hkind : ((p.circularMove a d feed).kind == .arcClockwise) = p.clockwise := by
    rw [(p.circularMove_words a d feed).1]
    cases p.clockwise <;> rfl
  rw [hkind, clockwise, mirrored_eq, ← hsense]
  exact Stretch.point_turned hk hx hy _ _ _ _

theorem segments_retrace (hsense : a.clockwise = p.order.turn.isClockwise) (hk : 0 < k)
    (hx : |p.order.scale.x| = k) (hy : |p.order.scale.y| = k) (hsweep : 0 < a.sweep) (d : Depth ℝ)
    (arcStep feed : ℝ) {angles : List ℝ} (hangles : (0 :: (angles ++ [a.sweep])).IsChain (· < ·)) :
    Retraces (p.circularMove a d feed) (p.stretch.point a.start) (p.stretch.point a.centerPoint)
      (p.stretch.point a.finish) (k * a.radius) a.sweep
      (angles.map (Sampler.ofArc a p.stretch d arcStep feed).segment)
      (Sampler.ofArc a p.stretch d arcStep feed).lastMove := by
  obtain ⟨hkind, hto, hi, hj, hz⟩ := p.circularMove_words a d feed
  have hpoint (angle : ℝ) : (Sampler.ofArc a p.stretch d arcStep feed).point angle =
      (p.stretch.point a.start).turned (p.stretch.point a.centerPoint)
        ((p.circularMove a d feed).kind == .arcClockwise) angle := by
    rw [Sampler.point_ofArc]
    exact stretched_turned hsense hk hx hy d feed angle
  -- turning keeps the distance that the stretched start has from the stretched center
  have hlength (angle : ℝ) : ((p.stretch.point a.centerPoint).wayTo
      ((Sampler.ofArc a p.stretch d arcStep feed).point angle)).length = k * a.radius := by
    rw [hpoint, Point.wayTo_turned, Offset.length_turned, Stretch.wayTo_point,
      Stretch.length_offset hk hx hy, Arc.length_wayTo_start]
  refine
    { isArc := ?_
      center_eq := ⟨p.stretch.offset a.center, hi, hj, Stretch.point_shift _ _ _⟩
      arc_goesTo := hto
      last_goesTo := ⟨rfl, rfl⟩
      last_z := ?_
      front_length := ?_
      front_turned := ⟨angles, ?_, List.isChain_iff_pairwise.mp hangles⟩
      sweep_le := a.sweep_le }
  · rw [hkind]
    cases p.clockwise <;> rfl
  · intro z harc
    show some (d.along (a.sweep / a.sweep)) = some z
    rw [div_self hsweep.ne', Depth.along_one, hz z harc]
  · intro e he
    obtain ⟨angle, -, rfl⟩ := List.mem_map.mp he
    exact ⟨_, ⟨rfl, rfl⟩, hlength angle⟩
  · rw [List.forall₂_map_left_iff, List.forall₂_same]
    intro angle _
    rw [← hpoint]
    exact ⟨rfl, rfl⟩

/-- The end of a closed arc is beside its start, after the stretch as well. -/
theorem near_of_closed (hk : 0 < k) (hx : |p.order.scale.x| = k) (hy : |p.order.scale.y| = k)
    (h : a.Closed) :
    |(p.stretch.point a.finish).x - (p.stretch.point a.start).x| ≤ k * tolerance ∧
      |(p.stretch.point a.finish).y - (p.stretch.point a.start).y| ≤ k * tolerance := by
  have hway := p.stretch.wayTo_point a.start a.finish
  have hnear : |a.start.x - a.finish.x| ≤ tolerance ∧ |a.start.y - a.finish.y| ≤ tolerance := h
  have hwayx : (p.stretch.point a.finish).x - (p.stretch.point a.start).x =
      (a.finish.x - a.start.x) * p.order.scale.x := congrArg Offset.x hway
  have hwayy : (p.stretch.point a.finish).y - (p.stretch.point a.start).y =
      (a.finish.y - a.start.y) * p.order.scale.y := congrArg Offset.y hway
  rw [hwayx, hwayy, abs_mul, abs_mul, hx, hy, mul_comm _ k, mul_comm _ k, abs_sub_comm,
    abs_sub_comm a.finish.y]
  exact ⟨mul_le_mul_of_nonneg_left hnear.1 hk.le, mul_le_mul_of_nonneg_left hnear.2 hk.le⟩

/-- **An evenly stretched arc is the same curve in one move and in segments.** The segments go round
as the circular move does, whose sense a mirroring stretch has turned round. The end of the arc lies
in the direction of its start, turned by the sweep; but where the two count as one place, the arc
goes all the way round, and ends beside its start. -/
theorem follow_retraces (hsense : a.clockwise = p.order.turn.isClockwise) (hk : 0 < k)
    (hx : |p.order.scale.x| = k) (hy : |p.order.scale.y| = k) (ha : ¬a.Degenerate) (d : Depth ℝ)
    (m : Machine ℝ) :
    ∃ (arc : Move ℝ) (center : Point ℝ) (front : List (Move ℝ)) (last : Move ℝ),
      ({ p with segmented := false }.follow a d m).since m = [arc] ∧
      ({ p with segmented := true }.follow a d m).since m = front ++ [last] ∧
      Retraces arc (p.stretch.point a.start) center (p.stretch.point a.finish) (k * a.radius)
        a.sweep front last ∧
      (¬a.Closed ∨ a.finish = a.start →
        (p.stretch.point a.finish).Towards center
          ((p.stretch.point a.start).turned center (arc.kind == .arcClockwise) a.sweep)) ∧
      (a.Closed → a.sweep = 2 * Real.pi ∧
        |(p.stretch.point a.finish).x - (p.stretch.point a.start).x| ≤ k * tolerance ∧
        |(p.stretch.point a.finish).y - (p.stretch.point a.start).y| ≤ k * tolerance) := by
  have hr := Arc.radius_pos ha
  obtain ⟨angles, hmoves, hangles⟩ :=
    segments_eq_append ha p.stretch d p.tool.arcStep m.feeds.xyPerMinute
  have hretraces := segments_retrace hsense hk hx hy (Arc.sweep_pos ha) d p.tool.arcStep
    m.feeds.xyPerMinute hangles
  refine ⟨_, _, _, _, Machine.since_emitAll m [_], ?_, hretraces, fun hend => ?_, fun hclosed => ?_⟩
  · show ((Sampler.ofArc a p.stretch d p.tool.arcStep m.feeds.xyPerMinute).cut m).since m = _
    rw [Sampler.cut_eq, Machine.since_emitAll, hmoves]
  · have htowards := p.stretch.point_towards (a.finish_towards hr hend)
    rwa [stretched_turned hsense hk hx hy d m.feeds.xyPerMinute] at htowards
  · exact ⟨a.sweep_of_closed hclosed, near_of_closed hk hx hy hclosed⟩

/-- Half a circle of radius one, clockwise, mirrored along the X axis and twice as large. -/
noncomputable def mirroredHalf : ArcPlan ℝ where
  order := ⟨⟨2, 0⟩, ⟨1, 0⟩, .clockwise, .single, ⟨-2, 2⟩, .spiral⟩
  tool := .standard
  origin := ⟨0, 0⟩
  segmented := false

theorem mirroredHalf_sweep : mirroredHalf.outline.sweep = Real.pi := by
  have hopen : ¬mirroredHalf.outline.Closed := by
    rintro ⟨hx, -⟩
    have hfar : |(0 : ℝ) - 2| ≤ 1e-6 := hx
    norm_num at hfar
  have hfirst : mirroredHalf.outline.bearingOf mirroredHalf.outline.start = -(Real.pi / 2) := by
    have hwest : (⟨0 - (0 + 0), 0 - (0 + 1)⟩ : ℂ) = -Complex.I := by
      apply Complex.ext <;> simp
    show Complex.arg ⟨0 - (0 + 0), 0 - (0 + 1)⟩ = _
    rw [hwest, Complex.arg_neg_I]
  have hlast : mirroredHalf.outline.bearingOf mirroredHalf.outline.finish = Real.pi / 2 := by
    have heast : (⟨0 - (0 + 0), 2 - (0 + 1)⟩ : ℂ) = Complex.I := by
      apply Complex.ext <;> norm_num
    show Complex.arg ⟨0 - (0 + 0), 2 - (0 + 1)⟩ = _
    rw [heast, Complex.arg_I]
  have hhalf : Real.pi / 2 - -(Real.pi / 2) = Real.pi := by ring
  have hturn : (turn : ℝ) = 2 * Real.pi := rfl
  have hneg : ¬Real.pi < 0 := Real.pi_pos.le.not_gt
  have hless : Real.pi < turn := by
    rw [hturn]
    linarith [Real.pi_pos]
  have hclockwise : mirroredHalf.outline.clockwise = true := rfl
  unfold Arc.sweep
  dsimp only
  rw [if_neg hopen, hfirst, hlast, hhalf, if_pos hclockwise, Arc.unwind, real_zero, if_neg hneg,
    if_pos hless]

theorem mirroredHalf_radius : mirroredHalf.outline.radius = 1 := by
  show √((1 : ℝ) ^ 2 + 0 ^ 2) = 1
  norm_num

theorem mirroredHalf_not_degenerate : ¬mirroredHalf.outline.Degenerate := by
  unfold Arc.Degenerate
  rw [mirroredHalf_sweep, mirroredHalf_radius]
  rintro (hradius | hsweep)
  · have hone : (1 : ℝ) ≤ 1e-6 := hradius
    norm_num at hone
  · have hpi : Real.pi < 1e-5 := hsweep
    linarith [Real.two_le_pi]

/-- A machine at the start of it. -/
noncomputable def atOrigin : Machine ℝ := .atRest ⟨0, 0, 0⟩ .standard .none

/-- Its segments go round counter-clockwise to the left, on a circle of radius two. -/
theorem mirroredHalf_retraces :
    mirroredHalf.outline.clockwise = mirroredHalf.order.turn.isClockwise ∧ (0 : ℝ) < 2 ∧
      |mirroredHalf.order.scale.x| = 2 ∧ |mirroredHalf.order.scale.y| = 2 ∧
      ¬mirroredHalf.outline.Degenerate ∧
      ∃ (arc : Move ℝ) (center : Point ℝ) (front : List (Move ℝ)) (last : Move ℝ),
        ({ mirroredHalf with segmented := false }.follow mirroredHalf.outline (.ramp 0 (-1))
            atOrigin).since atOrigin = [arc] ∧
        ({ mirroredHalf with segmented := true }.follow mirroredHalf.outline (.ramp 0 (-1))
            atOrigin).since atOrigin = front ++ [last] ∧
        Retraces arc ⟨0, 0⟩ center ⟨-4, 0⟩ 2 Real.pi front last := by
  have hx : |mirroredHalf.order.scale.x| = 2 := by
    show |(-2 : ℝ)| = 2
    norm_num
  have hy : |mirroredHalf.order.scale.y| = 2 := abs_two
  have hstart : mirroredHalf.stretch.point mirroredHalf.outline.start = ⟨0, 0⟩ := by
    simp [Stretch.point, Stretch.offset, stretch, outline, mirroredHalf, Point.shift, Point.wayTo,
      Offset.scale]
  have hfinish : mirroredHalf.stretch.point mirroredHalf.outline.finish = ⟨-4, 0⟩ := by
    simp [Stretch.point, Stretch.offset, stretch, outline, mirroredHalf, Point.shift, Point.wayTo,
      Offset.scale]
    norm_num
  obtain ⟨arc, center, front, last, harc, hsegments, hretraces, -, -⟩ :=
    follow_retraces (p := mirroredHalf) (a := mirroredHalf.outline) rfl two_pos hx hy
      mirroredHalf_not_degenerate (.ramp 0 (-1)) atOrigin
  rw [hstart, hfinish, mirroredHalf_radius, mirroredHalf_sweep, mul_one] at hretraces
  exact ⟨rfl, two_pos, hx, hy, mirroredHalf_not_degenerate, arc, center, front, last, harc,
    hsegments, hretraces⟩

end ArcPlan

end Toolpath
