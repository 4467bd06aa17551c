import Mathlib.Algebra.Order.ToIntervalMod
import Toolpath.Arc.Circle
import Toolpath.Proofs.Arc.Compass
import Toolpath.Proofs.Bearing
import Toolpath.Proofs.Verdict

/-!
# Circles given by bearings

Both kinds of circle order what their bearings say, in exact arithmetic, whatever size the bearings
have: a circle of the radius, from the point at the start bearing, around the center, to the point
at the end bearing. The center, as an offset from the start, has lost what counts as noise, and a
circle that starts at the current position is moved by as much.

* `Bearing.polar_angle` — a bearing, counted from the other axis
* `Circle.radius_ok_iff` — which radius a circle has
* `Circle.Follows` — an order that goes along the circle
* `Circle.orders_follow` — the orders of both kinds of circle do
-/

namespace Toolpath

open Scalar RealScalar

/-! ## Bearings and angles -/

namespace Bearing

/-- Counted the other way and from the other axis, a bearing changes by whole turns at most. -/
theorem exists_angle (bearing : ℝ) :
    ∃ n : ℤ, angle bearing = Real.pi / 2 - radians bearing + n * (2 * Real.pi) := by
  refine ⟨foldTurns bearing, ?_⟩
  show fold bearing * (Real.pi / 180) = Real.pi / 2 - bearing * (Real.pi / 180) + _
  rw [fold_eq]
  ring

/-- **An angle leads where its bearing does.** -/
theorem polar_angle (length bearing : ℝ) :
    Offset.polar length (angle bearing) = offset length (radians bearing) := by
  obtain ⟨n, hn⟩ := exists_angle bearing
  show (⟨length * Real.cos _, length * Real.sin _⟩ : Offset ℝ) =
    ⟨length * Real.sin _, length * Real.cos _⟩
  rw [hn, Real.cos_add_int_mul_two_pi, Real.sin_add_int_mul_two_pi, Real.cos_pi_div_two_sub,
    Real.sin_pi_div_two_sub]

/-- Half a turn further it leads the opposite way. -/
theorem polar_angle_add_pi (length bearing : ℝ) :
    Offset.polar length (angle bearing + pi) = offset (-length) (radians bearing) := by
  rw [← polar_angle]
  show (⟨length * Real.cos (_ + Real.pi), length * Real.sin (_ + Real.pi)⟩ : Offset ℝ) =
    ⟨-length * Real.cos _, -length * Real.sin _⟩
  rw [Real.cos_add_pi, Real.sin_add_pi, mul_neg, mul_neg, neg_mul, neg_mul]

/-- The way back is the opposite one. -/
theorem wayTo_shift_offset (p : Point ℝ) (length bearing : ℝ) :
    (p.shift (offset length bearing)).wayTo p = offset (-length) bearing := by
  simp only [Point.shift, Point.wayTo, offset]
  congr 1 <;> ring

theorem shift_offset_neg (p : Point ℝ) (length bearing : ℝ) :
    (p.shift (offset (-length) bearing)).shift (offset length bearing) = p := by
  simp only [Point.shift, offset, neg_mul, neg_add_cancel_right]

/-- The angle between two bearings, in degrees from zero up to a whole turn. -/
noncomputable def degreesTo (turn : Turn) (first last : ℝ) : ℝ :=
  toIcoMod (by norm_num : (0 : ℝ) < 360) 0 (if turn.isClockwise then last - first else first - last)

theorem degreesTo_nonneg (turn : Turn) (first last : ℝ) : 0 ≤ degreesTo turn first last :=
  (toIcoMod_mem_Ico' _ _).1

theorem degreesTo_lt (turn : Turn) (first last : ℝ) : degreesTo turn first last < 360 :=
  (toIcoMod_mem_Ico' _ _).2

/-- The angle from one bearing on leads to the other. -/
theorem offset_radians_degreesTo (length : ℝ) (turn : Turn) (first last : ℝ) :
    offset length (if turn.isClockwise
      then radians first + radians (degreesTo turn first last)
      else radians first - radians (degreesTo turn first last)) = offset length (radians last) := by
  obtain ⟨n, hn⟩ : ∃ n : ℤ, degreesTo turn first last =
      (if turn.isClockwise then last - first else first - last) - n * 360 := by
    refine ⟨toIcoDiv (by norm_num : (0 : ℝ) < 360) 0
      (if turn.isClockwise then last - first else first - last), ?_⟩
    rw [← zsmul_eq_mul]
    exact (self_sub_toIcoDiv_zsmul _ _ _).symm
  have hradians (x : ℝ) : radians x = x * (Real.pi / 180) := rfl
  by_cases hc : turn.isClockwise = true
  · rw [if_pos hc] at hn
    rw [if_pos hc, ← offset_add_turns length (radians last) (-n)]
    congr 1
    rw [hradians, hradians, hradians, hn]
    push_cast
    ring
  · rw [if_neg hc] at hn
    rw [if_neg hc, ← offset_add_turns length (radians last) n]
    congr 1
    rw [hradians, hradians, hradians, hn]
    ring

end Bearing

/-! ## Noise -/

/-- Its components are noise. -/
def Offset.IsNoise (v : Offset ℝ) : Prop := |v.x| < noise ∧ |v.y| < noise

theorem Offset.isNoise_zero : (⟨0, 0⟩ : Offset ℝ).IsNoise := by
  have hpos : |(0 : ℝ)| < noise := by
    unfold noise
    norm_num
  exact ⟨hpos, hpos⟩

theorem abs_denoise_sub_lt (c : ℝ) : |denoise c - c| < noise := by
  unfold denoise
  split
  · rename_i hsmall
    rw [real_zero, zero_sub, abs_neg]
    exact hsmall
  · rw [sub_self]
    exact Offset.isNoise_zero.1

/-- Only noise is lost. -/
theorem Offset.isNoise_denoised_sub (v : Offset ℝ) : (v.denoised.sub v).IsNoise :=
  ⟨abs_denoise_sub_lt v.x, abs_denoise_sub_lt v.y⟩

/-! ## The orders of circles -/

namespace Circle

/-- A circle of a positive diameter, and the radius that is left of it with a tool. -/
structure HasRadius (c : Circle ℝ) (tool : Tool ℝ) (radius : ℝ) : Prop where
  diameter_pos : ∃ diameter, c.diameter = some diameter ∧ 0 < diameter ∧
    radius = diameter / 2 + c.side.radiusChange tool.cutterDiameter
  radius_pos : 0 < radius

variable {c : Circle ℝ} {tool : Tool ℝ} {radius : ℝ} {start : Point ℝ} {o : ArcOrder ℝ}

theorem radius_ok_iff : c.radius tool = .ok radius ↔ c.HasRadius tool radius := by
  unfold Circle.radius
  constructor
  · intro h
    obtain ⟨diameter, hdiameter, h⟩ := exists_of_bind_eq_ok h
    dsimp only at h
    split at h
    · cases h
    · rename_i hpos
      split at h
      · cases h
      · rename_i hleft
        obtain rfl := Except.ok.inj h
        rw [real_zero] at hpos hleft
        exact ⟨⟨diameter, requirePresent_real.mp hdiameter, not_le.mp hpos, rfl⟩, not_le.mp hleft⟩
  · rintro ⟨⟨diameter, hdiameter, hpos, rfl⟩, hleft⟩
    rw [← real_zero] at hpos hleft
    rw [hdiameter]
    exact (if_neg hpos.not_ge).trans (if_neg hleft.not_ge)

/-- An order that goes along a circle of a radius. Seen from the start, the center lies opposite to
the start bearing, and the end at the end bearing from there, but for noise. If there was none, the
order goes through the angle between the bearings, unless it ends where it starts. -/
structure Follows (c : Circle ℝ) (radius : ℝ) (start : Point ℝ) (o : ArcOrder ℝ) : Prop where
  turn_eq : o.turn = c.turn
  center_near : (o.center.sub (Bearing.offset (-radius) (radians c.startBearing))).IsNoise
  finish_near : (((start.shift (Bearing.offset (-radius) (radians c.startBearing))).shift
    (Bearing.offset radius (radians c.endBearing))).wayTo o.finish).IsNoise
  sweep_eq : o.center = Bearing.offset (-radius) (radians c.startBearing) →
    ¬(o.arcFrom start).Closed →
      (o.arcFrom start).sweep = radians (Bearing.degreesTo c.turn c.startBearing c.endBearing)

/-- An arc from one bearing to another goes through the angle between them. -/
theorem sweep_of_rim (hr : 0 < radius) (hturn : o.turn = c.turn)
    (hcenter : o.center = Bearing.offset (-radius) (radians c.startBearing))
    (hfinish : o.finish =
      (start.shift o.center).shift (Bearing.offset radius (radians c.endBearing)))
    (hopen : ¬(o.arcFrom start).Closed) :
    (o.arcFrom start).sweep =
      radians (Bearing.degreesTo c.turn c.startBearing c.endBearing) := by
  have hradians (x : ℝ) : radians x = x * (Real.pi / 180) := rfl
  have hpi := Real.pi_pos
  have hnonneg := Bearing.degreesTo_nonneg c.turn c.startBearing c.endBearing
  have hlt := Bearing.degreesTo_lt c.turn c.startBearing c.endBearing
  have hstart : (o.arcFrom start).centerPoint.wayTo (o.arcFrom start).start =
      Bearing.offset radius (radians c.startBearing) := by
    show (start.shift o.center).wayTo start = _
    rw [hcenter, Bearing.wayTo_shift_offset, neg_neg]
  refine Arc.sweep_of_bearings hr hopen hstart ?_ ?_ ?_
  · show (start.shift o.center).wayTo o.finish =
      Bearing.offset radius (if o.turn.isClockwise then _ + _ else _ - _)
    rw [hfinish, Point.wayTo_shift, hturn, Bearing.offset_radians_degreesTo]
  · rw [hradians]
    positivity
  · rw [hradians]
    nlinarith

theorem isFull_iff : c.isFull = true ↔ c.startBearing = c.endBearing := beq_real

end Circle

namespace BearingCircle

variable {c : BearingCircle ℝ} {tool : Tool ℝ} {radius : ℝ}

theorem order_of_hasRadius (h : c.HasRadius tool radius) (start : Point ℝ) :
    c.order start tool = .ok (c.orderFor
      (if c.isFull then start
        else (start.shift (Bearing.offset (-radius) (radians c.startBearing)).denoised).shift
          (Bearing.offset radius (radians c.endBearing)))
      (Bearing.offset (-radius) (radians c.startBearing)).denoised) := by
  unfold BearingCircle.order
  rw [Circle.radius_ok_iff.mpr h, ← Bearing.polar_angle_add_pi, ← Bearing.polar_angle]
  rfl

/-- **A circle through the current position is cut as its bearings say.** -/
theorem order_follows {start : Point ℝ} {o : ArcOrder ℝ} (h : c.order start tool = .ok o) :
    ∃ radius, c.HasRadius tool radius ∧ c.Follows radius start o := by
  obtain ⟨radius, hradius, -⟩ := exists_of_bind_eq_ok h
  have hhas := Circle.radius_ok_iff.mp hradius
  obtain rfl := Except.ok.inj (h.symm.trans (order_of_hasRadius hhas start))
  refine ⟨radius, hhas,
    { turn_eq := rfl
      center_near := Offset.isNoise_denoised_sub _
      finish_near := ?_
      sweep_eq := fun hexact hopen => Circle.sweep_of_rim hhas.radius_pos rfl hexact ?_ hopen }⟩
  · show (Point.wayTo _ (if c.isFull then start else _)).IsNoise
    split
    · rename_i hfull
      rw [← Circle.isFull_iff.mp hfull, Bearing.shift_offset_neg]
      simpa [Point.wayTo] using Offset.isNoise_zero
    · -- the end is moved by what the center has lost
      have hnoise := Offset.isNoise_denoised_sub
        (Bearing.offset (-radius) (radians c.startBearing))
      simpa only [Point.wayTo, Point.shift, Offset.sub, add_sub_add_right_eq_sub,
        add_sub_add_left_eq_sub] using hnoise
  · have hsame : (Bearing.offset (-radius) (radians c.startBearing)).denoised =
        Bearing.offset (-radius) (radians c.startBearing) := hexact
    show (if c.isFull then start else _) = (start.shift (Offset.denoised _)).shift _
    split
    · rename_i hfull
      rw [hsame, ← Circle.isFull_iff.mp hfull, Bearing.shift_offset_neg]
    · rfl

end BearingCircle

namespace CenterCircle

variable {c : CenterCircle ℝ} {tool : Tool ℝ} {radius : ℝ}

/-- The center of a circle. -/
noncomputable def centerAt (c : CenterCircle ℝ) (position : Point ℝ) : Point ℝ :=
  ⟨c.centerX.getD position.x, c.centerY.getD position.y⟩

/-- The point of a circle at a bearing from its center. -/
noncomputable def pointAt (c : CenterCircle ℝ) (position : Point ℝ) (radius bearing : ℝ) :
    Point ℝ :=
  (c.centerAt position).shift (Bearing.offset radius (radians bearing))

theorem order_of_hasRadius (h : c.HasRadius tool radius) (position : Point ℝ) :
    c.order position tool = .ok (c.pointAt position radius c.startBearing,
      c.orderFor (c.pointAt position radius c.endBearing)
        (Bearing.offset (-radius) (radians c.startBearing)).denoised) := by
  have hfinish : (if c.isFull then c.pointAt position radius c.startBearing
      else c.pointAt position radius c.endBearing) = c.pointAt position radius c.endBearing := by
    split
    · rename_i hfull
      rw [Circle.isFull_iff.mp hfull]
    · rfl
  rw [← hfinish, ← Bearing.wayTo_shift_offset (c.centerAt position)]
  unfold CenterCircle.order pointAt
  rw [Circle.radius_ok_iff.mpr h, ← Bearing.polar_angle, ← Bearing.polar_angle]
  rfl

/-- **A circle around a center is cut as its bearings say**, and its start and its end are points of
it. -/
theorem order_follows {position entry : Point ℝ} {o : ArcOrder ℝ}
    (h : c.order position tool = .ok (entry, o)) :
    ∃ radius, c.HasRadius tool radius ∧ c.Follows radius entry o ∧
      entry = c.pointAt position radius c.startBearing ∧
      o.finish = c.pointAt position radius c.endBearing := by
  obtain ⟨radius, hradius, -⟩ := exists_of_bind_eq_ok h
  have hhas := Circle.radius_ok_iff.mp hradius
  obtain ⟨rfl, rfl⟩ :=
    Prod.mk.inj (Except.ok.inj (h.symm.trans (order_of_hasRadius hhas position)))
  have hcenter : (c.pointAt position radius c.startBearing).shift
      (Bearing.offset (-radius) (radians c.startBearing)) = c.centerAt position := by
    have hback := Bearing.shift_offset_neg (c.centerAt position) (-radius) (radians c.startBearing)
    rwa [neg_neg] at hback
  refine ⟨radius, hhas,
    { turn_eq := rfl
      center_near := Offset.isNoise_denoised_sub _
      finish_near := ?_
      sweep_eq := fun hexact hopen => Circle.sweep_of_rim hhas.radius_pos rfl hexact ?_ hopen },
    rfl, rfl⟩
  · rw [hcenter]
    show (Point.wayTo (c.pointAt position radius c.endBearing)
      (c.pointAt position radius c.endBearing)).IsNoise
    simpa [Point.wayTo] using Offset.isNoise_zero
  · rw [hexact, hcenter]
    rfl

end CenterCircle

/-- **Circles are cut as their bearings say**, whatever size these have. -/
theorem Circle.orders_follow (tool : Tool ℝ) :
    (∀ (c : BearingCircle ℝ) (start : Point ℝ) (o : ArcOrder ℝ), c.order start tool = .ok o →
      ∃ radius, c.HasRadius tool radius ∧ c.Follows radius start o) ∧
    ∀ (c : CenterCircle ℝ) (position entry : Point ℝ) (o : ArcOrder ℝ),
      c.order position tool = .ok (entry, o) →
        ∃ radius, c.HasRadius tool radius ∧ c.Follows radius entry o ∧
          entry = c.pointAt position radius c.startBearing ∧
          o.finish = c.pointAt position radius c.endBearing :=
  ⟨fun _ _ _ h => BearingCircle.order_follows h, fun _ _ _ _ h => CenterCircle.order_follows h⟩

/-! ### From north to east, and round once more -/

/-- A circle of radius one, whose end bearing is beyond a whole turn. -/
noncomputable def northToEast (turn : Turn) : Circle ℝ where
  diameter := some 2
  side := .on
  turn := turn
  startBearing := 0
  endBearing := 450
  passes := .single
  scale := ⟨1, 1⟩
  cut := .profile

namespace northToEast

variable (turn : Turn)

theorem hasRadius : (northToEast turn).HasRadius .standard 1 where
  diameter_pos := ⟨2, rfl, two_pos, by
    simp only [northToEast, Side.radiusChange, Side.sign, real_zero]
    norm_num⟩
  radius_pos := one_pos

theorem north (length : ℝ) :
    Bearing.offset length (radians (northToEast turn).startBearing) = ⟨0, length⟩ := by
  show (⟨length * Real.sin (0 * (Real.pi / 180)), length * Real.cos (0 * (Real.pi / 180))⟩ :
    Offset ℝ) = _
  rw [zero_mul, Real.sin_zero, Real.cos_zero, mul_zero, mul_one]

theorem east (length : ℝ) :
    Bearing.offset length (radians (northToEast turn).endBearing) = ⟨length, 0⟩ := by
  have hturn : radians (northToEast turn).endBearing = Real.pi / 2 + (1 : ℤ) * (2 * Real.pi) := by
    show 450 * (Real.pi / 180) = _
    push_cast
    ring
  rw [hturn, Bearing.offset_add_turns]
  show (⟨length * Real.sin _, length * Real.cos _⟩ : Offset ℝ) = _
  rw [Real.sin_pi_div_two, Real.cos_pi_div_two, mul_zero, mul_one]

/-- There is no noise in the center. -/
theorem denoised_center : (⟨0, -1⟩ : Offset ℝ).denoised = ⟨0, -1⟩ := by
  have hone : ¬|(-1 : ℝ)| < noise := by
    unfold noise
    norm_num
  have hzero : |(0 : ℝ)| < noise := Offset.isNoise_zero.1
  show (⟨if |(0 : ℝ)| < noise then _ else _, if |(-1 : ℝ)| < noise then _ else _⟩ : Offset ℝ) = _
  rw [if_pos hzero, if_neg hone, real_zero]

theorem bearing_order : (BearingCircle.mk (northToEast turn)).order ⟨0, 0⟩ .standard =
    .ok ((northToEast turn).orderFor ⟨1, -1⟩ ⟨0, -1⟩) := by
  have hopen : ¬(northToEast turn).isFull = true := by
    rw [Circle.isFull_iff]
    show ¬(0 : ℝ) = 450
    norm_num
  refine (BearingCircle.order_of_hasRadius (c := ⟨northToEast turn⟩) (hasRadius turn) _).trans ?_
  show Except.ok ((northToEast turn).orderFor (if (northToEast turn).isFull then _ else
    (Point.shift _ (Offset.denoised _)).shift _) _) = _
  rw [if_neg hopen, north, east, denoised_center]
  simp [Point.shift]

theorem center_order : (CenterCircle.mk (northToEast turn) none none).order ⟨0, 0⟩ .standard =
    .ok (⟨0, 1⟩, (northToEast turn).orderFor ⟨1, 0⟩ ⟨0, -1⟩) := by
  refine (CenterCircle.order_of_hasRadius (c := ⟨northToEast turn, none, none⟩) (hasRadius turn)
    _).trans ?_
  unfold CenterCircle.pointAt
  rw [north, north, east, denoised_center]
  simp [CenterCircle.centerAt, Point.shift]

theorem sweep_eq {o : ArcOrder ℝ} {start : Point ℝ} (ho : o.center = ⟨0, -1⟩)
    (hfar : o.finish.x = start.x + 1)
    (h : ∃ radius, (northToEast turn).HasRadius .standard radius ∧
      (northToEast turn).Follows radius start o) :
    (o.arcFrom start).sweep = Bearing.degreesTo turn 0 450 * (Real.pi / 180) := by
  obtain ⟨radius, hhas, hfollows⟩ := h
  obtain rfl : 1 = radius :=
    Except.ok.inj ((Circle.radius_ok_iff.mpr (hasRadius turn)).symm.trans
      (Circle.radius_ok_iff.mpr hhas))
  refine hfollows.sweep_eq ?_ ?_
  · rw [north, ho]
  · rintro ⟨hx, -⟩
    have hnear : |start.x - o.finish.x| ≤ 1e-6 := hx
    rw [hfar, sub_add_cancel_left, abs_neg, abs_one] at hnear
    norm_num at hnear

theorem degrees_clockwise : Bearing.degreesTo .clockwise 0 450 = 90 := by
  refine (toIcoMod_eq_iff _).mpr ⟨⟨by norm_num, by norm_num⟩, 1, ?_⟩
  show (450 : ℝ) - 0 = _
  norm_num

theorem degrees_counterclockwise : Bearing.degreesTo .counterclockwise 0 450 = 270 := by
  refine (toIcoMod_eq_iff _).mpr ⟨⟨by norm_num, by norm_num⟩, -2, ?_⟩
  show (0 : ℝ) - 450 = _
  norm_num

end northToEast

/-- Clockwise it is a quarter of a circle, and counter-clockwise three quarters. -/
theorem Circle.northToEast_orders_follow :
    (∃ o, (BearingCircle.mk (northToEast .clockwise)).order ⟨0, 0⟩ .standard = .ok o ∧
      o.finish = ⟨1, -1⟩ ∧ (o.arcFrom ⟨0, 0⟩).sweep = Real.pi / 2) ∧
    ∃ o, (CenterCircle.mk (northToEast .counterclockwise) none none).order ⟨0, 0⟩ .standard =
        .ok (⟨0, 1⟩, o) ∧
      o.finish = ⟨1, 0⟩ ∧ (o.arcFrom ⟨0, 1⟩).sweep = 3 * (Real.pi / 2) := by
  obtain ⟨hbearing, hcenter⟩ := Circle.orders_follow (.standard : Tool ℝ)
  refine ⟨⟨_, northToEast.bearing_order .clockwise, rfl, ?_⟩,
    _, northToEast.center_order .counterclockwise, rfl, ?_⟩
  · have hfollows := hbearing _ _ _ (northToEast.bearing_order .clockwise)
    rw [northToEast.sweep_eq .clockwise rfl (zero_add 1).symm hfollows,
      northToEast.degrees_clockwise]
    ring
  · obtain ⟨radius, hhas, hfollows, -, -⟩ :=
      hcenter _ _ _ _ (northToEast.center_order .counterclockwise)
    rw [northToEast.sweep_eq .counterclockwise rfl (zero_add 1).symm ⟨radius, hhas, hfollows⟩,
      northToEast.degrees_counterclockwise]
    ring

end Toolpath
