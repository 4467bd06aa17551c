import Mathlib.Data.Real.Basic
import Toolpath.Arc.Chord
import Toolpath.Proofs.Arc.Compass
import Toolpath.Proofs.Verdict

/-!
# Arcs over a chord

What a chord and a height make of an arc, in exact arithmetic. Without compensation the arc ends
where its chord does, and passes its apex halfway, as high above the middle of the chord as it
should, whether it is flatter than half a circle, taller, or a whole one over a chord of no length.
Compensation changes the radius, and the center moves with it, but the chord stays. So its ends are
no longer as far from the center as the radius says.

* `ChordArc.Spans` — the chord, the height and the radius of an arc
* `ChordArc.spans_of_order`, `ChordArc.Spans.order_eq` — its order has them, and follows from them
* `ChordArc.ends_at_radius_iff` — when its ends lie at its radius from its center
* `ChordArc.passes_apex` — halfway it passes its apex
-/

namespace Toolpath

open Scalar RealScalar

theorem Side.radiusChange_eq_zero {side : Side} {diameter : ℝ} :
    side.radiusChange diameter = 0 ↔ side = .on ∨ diameter = 0 := by
  cases side <;> simp [radiusChange, sign]

namespace ChordArc

/-! ## The order of a chord arc -/

/-- The radius of the circle over a chord that rises above it by the height. -/
noncomputable def bareRadius (chord height : ℝ) : ℝ :=
  |height| / 2 + |chord| * |chord| / (8 * |height|)

/-- The way along the X axis from the start to the end. -/
noncomputable def span (a : ChordArc ℝ) (chord : ℝ) : ℝ :=
  if a.turn.isClockwise then |chord| else -|chord|

/-- The chord and the height of an arc, and the radius that it has with a tool. -/
structure Spans (a : ChordArc ℝ) (tool : Tool ℝ) (chord height radius : ℝ) : Prop where
  chord_eq : a.chord = some chord
  height_eq : a.height = some height
  height_ne : height ≠ 0
  radius_eq : radius = bareRadius chord height + a.side.radiusChange tool.cutterDiameter
  radius_pos : 0 < radius

variable {a : ChordArc ℝ} {start : Point ℝ} {tool : Tool ℝ} {chord height radius : ℝ}

theorem bareRadius_pos (chord : ℝ) (hheight : height ≠ 0) : 0 < bareRadius chord height := by
  have hpos : 0 < |height| := abs_pos.mpr hheight
  unfold bareRadius
  positivity

/-- Half the chord is the geometric mean of the parts into which it cuts the diameter. -/
theorem half_sq (hheight : height ≠ 0) :
    (|chord| / 2) ^ 2 = 2 * |height| * bareRadius chord height - |height| ^ 2 := by
  have hne : |height| ≠ 0 := abs_ne_zero.mpr hheight
  unfold bareRadius
  field_simp
  ring

theorem abs_span (a : ChordArc ℝ) (chord : ℝ) : |a.span chord| = |chord| := by
  unfold span
  split
  · exact abs_abs chord
  · rw [abs_neg, abs_abs]

/-- The radius of an arc is the radius of its circle, with the change that compensation makes. -/
theorem Spans.radius_ok (h : a.Spans tool chord height radius) : a.radius tool = .ok radius := by
  have hne : ¬(|height| == (@OfNat.ofNat ℝ 0 (instOfNatScalar 0))) = true := by
    rw [beq_real, real_zero]
    exact abs_ne_zero.mpr h.height_ne
  have hpos : ¬radius ≤ (@OfNat.ofNat ℝ 0 (instOfNatScalar 0)) := by
    rw [real_zero]
    exact not_le.mpr h.radius_pos
  rw [h.radius_eq] at hpos ⊢
  unfold ChordArc.radius
  rw [h.chord_eq, h.height_eq]
  exact (if_neg hne).trans (if_neg hpos)

/-- An arc that has a radius has a chord and a height. -/
theorem spans_of_radius (h : a.radius tool = .ok radius) :
    ∃ chord height, a.Spans tool chord height radius := by
  unfold ChordArc.radius at h
  obtain ⟨chord, hchord, h⟩ := exists_of_bind_eq_ok h
  obtain ⟨height, hheight, h⟩ := exists_of_bind_eq_ok h
  dsimp only at h
  split at h
  · cases h
  · rename_i hzero
    split at h
    · cases h
    · rename_i hpos
      rw [beq_real, real_zero] at hzero
      rw [real_zero] at hpos
      obtain rfl := Except.ok.inj h
      exact ⟨chord, height,
        { chord_eq := requirePresent_real.mp hchord
          height_eq := requirePresent_real.mp hheight
          height_ne := abs_ne_zero.mp hzero
          radius_eq := rfl
          radius_pos := not_le.mp hpos }⟩

/-- The order of an arc with a radius: to the end of the chord, around a center that lies as far
below the apex as the radius says. -/
noncomputable def orderOf (a : ChordArc ℝ) (start : Point ℝ) (chord height radius : ℝ) :
    ArcOrder ℝ where
  finish := start.shift ⟨a.span chord, 0⟩
  center := ⟨a.span chord / 2, |height| - radius⟩
  turn := a.turn
  passes := a.passes
  scale := a.scale
  cut := .profile

/-- **The order of an arc that has a radius.** -/
theorem Spans.order_eq (h : a.Spans tool chord height radius) (start : Point ℝ) :
    a.order start tool = .ok (a.orderOf start chord height radius) := by
  have hhalf : (if a.turn.isClockwise then |chord| / 2 else -|chord| / 2) = a.span chord / 2 := by
    unfold span
    split <;> rfl
  have hwhole : 2 * (a.span chord / 2) = a.span chord := by ring
  unfold order orderOf
  rw [h.radius_ok, h.chord_eq, h.height_eq]
  show Except.ok _ = Except.ok _
  congr 2
  · show start.shift ⟨2 * (if a.turn.isClockwise then |chord| / 2 else -|chord| / 2), _⟩ = _
    rw [hhalf, hwhole, real_zero]
  · show (⟨if a.turn.isClockwise then |chord| / 2 else -|chord| / 2, _⟩ : Offset ℝ) = _
    rw [hhalf]
    rfl

theorem spans_of_order {o : ArcOrder ℝ} (h : a.order start tool = .ok o) :
    ∃ chord height radius, a.Spans tool chord height radius ∧
      o = a.orderOf start chord height radius := by
  obtain ⟨radius, hradius, -⟩ := exists_of_bind_eq_ok h
  obtain ⟨chord, height, hspans⟩ := spans_of_radius hradius
  exact ⟨chord, height, radius, hspans, Except.ok.inj (h.symm.trans (hspans.order_eq start))⟩

/-- Seen from the center, the ends of the chord lie on either side, at one height. -/
theorem wayTo_start (a : ChordArc ℝ) (start : Point ℝ) (chord height radius : ℝ) :
    (start.shift (a.orderOf start chord height radius).center).wayTo start =
      ⟨-(a.span chord / 2), radius - |height|⟩ := by
  simp only [orderOf, Point.shift, Point.wayTo]
  congr 1 <;> ring

theorem wayTo_finish (a : ChordArc ℝ) (start : Point ℝ) (chord height radius : ℝ) :
    (start.shift (a.orderOf start chord height radius).center).wayTo
        (a.orderOf start chord height radius).finish =
      ⟨a.span chord / 2, radius - |height|⟩ := by
  simp only [orderOf, Point.shift, Point.wayTo]
  congr 1 <;> ring

/-! ## The distance of the ends from the center -/

/-- Half the chord and the height of the center above it make up the radius, but for what
compensation has changed. -/
theorem Spans.rim_sq (h : a.Spans tool chord height radius) :
    (a.span chord / 2) ^ 2 + (radius - |height|) ^ 2 =
      radius ^ 2 - 2 * |height| * a.side.radiusChange tool.cutterDiameter := by
  rw [div_pow, ← sq_abs, abs_span, ← div_pow, half_sq h.height_ne, h.radius_eq]
  ring

/-- **The ends of a chord arc lie at its radius from its center exactly if compensation changes
nothing.** They are always equally far from it. -/
theorem ends_at_radius_iff {o : ArcOrder ℝ} (h : a.order start tool = .ok o) :
    ∃ chord height radius, a.Spans tool chord height radius ∧ a.radius tool = .ok radius ∧
      ((start.shift o.center).wayTo start).length = ((start.shift o.center).wayTo o.finish).length ∧
      ((start.shift o.center).wayTo start).length ^ 2 =
        radius ^ 2 - 2 * |height| * a.side.radiusChange tool.cutterDiameter ∧
      (((start.shift o.center).wayTo start).length = radius ∧
          ((start.shift o.center).wayTo o.finish).length = radius ↔
        a.side = .on ∨ tool.cutterDiameter = 0) := by
  obtain ⟨chord, height, radius, hspans, rfl⟩ := spans_of_order h
  have hsame : ((start.shift (a.orderOf start chord height radius).center).wayTo start).length =
      ((start.shift (a.orderOf start chord height radius).center).wayTo
        (a.orderOf start chord height radius).finish).length := by
    rw [wayTo_start, wayTo_finish]
    show √((-(a.span chord / 2)) ^ 2 + _) = √(_)
    rw [neg_sq]
  have hsq : ((start.shift (a.orderOf start chord height radius).center).wayTo start).length ^ 2 =
      radius ^ 2 - 2 * |height| * a.side.radiusChange tool.cutterDiameter := by
    rw [wayTo_start, Offset.length_sq, neg_sq, hspans.rim_sq]
  refine ⟨chord, height, radius, hspans, hspans.radius_ok, hsame, hsq, ?_⟩
  have hheight : 2 * |height| ≠ 0 := mul_ne_zero two_ne_zero (abs_ne_zero.mpr hspans.height_ne)
  rw [← hsame, and_self, ← Side.radiusChange_eq_zero,
    ← sq_eq_sq₀ (Offset.length_nonneg _) hspans.radius_pos.le, hsq, sub_eq_self, mul_eq_zero,
    or_iff_right hheight]

/-- Most of a circle of radius five, counter-clockwise above its chord; signs do not matter. -/
noncomputable def horseshoe : ChordArc ℝ :=
  ⟨some (-6), some (-9), .on, .counterclockwise, none, .single, ⟨1, 1⟩, none⟩

theorem horseshoe_spans : horseshoe.Spans .standard (-6) (-9) 5 where
  chord_eq := rfl
  height_eq := rfl
  height_ne := by norm_num
  radius_eq := by
    simp only [bareRadius, horseshoe, Side.radiusChange, Side.sign, abs_neg, real_zero]
    norm_num
  radius_pos := by norm_num

/-- It is cut along the programmed line, so its ends are where they should be. -/
theorem horseshoe_ends_at_radius :
    horseshoe.order ⟨1, 2⟩ .standard = .ok (horseshoe.orderOf ⟨1, 2⟩ (-6) (-9) 5) ∧
      ((⟨-2, 6⟩ : Point ℝ).wayTo ⟨1, 2⟩).length = 5 ∧
      ((⟨-2, 6⟩ : Point ℝ).wayTo ⟨-5, 2⟩).length = 5 := by
  have horder := horseshoe_spans.order_eq ⟨1, 2⟩
  obtain ⟨_, _, radius, -, hradius, -, -, hiff⟩ := ends_at_radius_iff horder
  obtain rfl : 5 = radius := Except.ok.inj (horseshoe_spans.radius_ok.symm.trans hradius)
  have hcenter : (⟨1, 2⟩ : Point ℝ).shift (horseshoe.orderOf ⟨1, 2⟩ (-6) (-9) 5).center =
      ⟨-2, 6⟩ := by
    simp only [orderOf, span, horseshoe, Turn.isClockwise, Point.shift, abs_neg]
    norm_num
  have hfinish : (horseshoe.orderOf ⟨1, 2⟩ (-6) (-9) 5).finish = ⟨-5, 2⟩ := by
    simp only [orderOf, span, horseshoe, Turn.isClockwise, Point.shift, abs_neg]
    norm_num
  rw [hcenter, hfinish] at hiff
  exact ⟨horder, hiff.mpr (Or.inl rfl)⟩

/-- Half a circle over a chord of two, cut on the outside. -/
noncomputable def widenedHalf : ChordArc ℝ :=
  ⟨some 2, some 1, .outside, .clockwise, none, .single, ⟨1, 1⟩, none⟩

/-- A tool that widens it by a quarter. -/
noncomputable def halfWide : Tool ℝ := { Tool.standard with cutterDiameter := 0.5 }

theorem widenedHalf_spans : widenedHalf.Spans halfWide 2 1 1.25 where
  chord_eq := rfl
  height_eq := rfl
  height_ne := one_ne_zero
  radius_eq := by
    simp only [bareRadius, widenedHalf, halfWide, Side.radiusChange, Side.sign, real_one]
    norm_num
  radius_pos := by norm_num

/-- Its radius is 1.25, but its ends are closer to the center than that. -/
theorem widenedHalf_ends_inside :
    ∃ o, widenedHalf.order ⟨0, 0⟩ halfWide = .ok o ∧ widenedHalf.radius halfWide = .ok 1.25 ∧
      (((⟨0, 0⟩ : Point ℝ).shift o.center).wayTo ⟨0, 0⟩).length < 1.25 ∧
      (((⟨0, 0⟩ : Point ℝ).shift o.center).wayTo o.finish).length < 1.25 := by
  have hshort {x : ℝ} (hx : x ^ 2 = 1) :
      (⟨x, 1.25 - |1|⟩ : Offset ℝ).length < 1.25 := by
    refine lt_of_pow_lt_pow_left₀ 2 (by norm_num) ?_
    rw [Offset.length_sq, hx, abs_one]
    norm_num
  have hspan : widenedHalf.span 2 = 2 := abs_two
  refine ⟨_, widenedHalf_spans.order_eq ⟨0, 0⟩, widenedHalf_spans.radius_ok, ?_, ?_⟩
  · rw [wayTo_start, hspan]
    exact hshort (by norm_num)
  · rw [wayTo_finish, hspan]
    exact hshort (by norm_num)

/-! ## The apex -/

/-- The end of the right half of the chord, seen from the center. -/
noncomputable def rim (chord height : ℝ) : Offset ℝ :=
  ⟨|chord| / 2, bareRadius chord height - |height|⟩

/-- Its bearing. That of the end of the left half is the opposite. -/
noncomputable def rimBearing (chord height : ℝ) : ℝ := Bearing.ofOffset (rim chord height)

theorem rimBearing_nonneg (chord height : ℝ) : 0 ≤ rimBearing chord height :=
  Complex.arg_nonneg_iff.mpr (div_nonneg (abs_nonneg chord) zero_le_two)

/-- The ends of the chord are apart, unless it has no length. -/
theorem rimBearing_lt (height : ℝ) (hchord : chord ≠ 0) : rimBearing chord height < Real.pi := by
  refine Complex.arg_lt_pi_iff.mpr (Or.inr ?_)
  exact (half_pos (abs_pos.mpr hchord)).ne'

theorem rimBearing_zero (hheight : height ≠ 0) : rimBearing 0 height = Real.pi := by
  have hpos : 0 < |height| := abs_pos.mpr hheight
  refine Complex.arg_eq_pi_iff.mpr ⟨?_, ?_⟩
  · show |height| / 2 + |0| * |0| / (8 * |height|) - |height| < 0
    rw [abs_zero, mul_zero, zero_div, add_zero]
    linarith
  · show |(0 : ℝ)| / 2 = 0
    rw [abs_zero, zero_div]

/-- The center lies below the chord if the arc is flatter than half a circle. -/
theorem rim_y_pos (hheight : height ≠ 0) : 0 < (rim chord height).y ↔ 2 * |height| < |chord| := by
  have hpos : 0 < |height| := abs_pos.mpr hheight
  have hdiff : bareRadius chord height - |height| =
      (|chord| ^ 2 - (2 * |height|) ^ 2) / (8 * |height|) := by
    unfold bareRadius
    field_simp
    ring
  show 0 < bareRadius chord height - |height| ↔ _
  rw [hdiff, div_pos_iff_of_pos_right (by positivity), sub_pos,
    sq_lt_sq₀ (by positivity) (abs_nonneg chord)]

theorem length_rim (hheight : height ≠ 0) :
    (rim chord height).length = bareRadius chord height := by
  rw [← sq_eq_sq₀ (Offset.length_nonneg _) (bareRadius_pos chord hheight).le, Offset.length_sq]
  show (|chord| / 2) ^ 2 + (bareRadius chord height - |height|) ^ 2 = _
  rw [half_sq hheight]
  ring

theorem rimBearing_lt_half (hheight : height ≠ 0) :
    rimBearing chord height < Real.pi / 2 ↔ 2 * |height| < |chord| := by
  have hsome : (⟨(rim chord height).y, (rim chord height).x⟩ : ℂ) ≠ 0 := by
    intro hzero
    have hx : (rim chord height).x = 0 := congrArg Complex.im hzero
    have hy : (rim chord height).y = 0 := congrArg Complex.re hzero
    have hsq := Offset.length_sq (rim chord height)
    rw [length_rim hheight, hx, hy] at hsq
    nlinarith [bareRadius_pos chord hheight]
  rw [← rim_y_pos hheight, ← abs_of_nonneg (rimBearing_nonneg chord height)]
  exact Complex.abs_arg_lt_pi_div_two_iff.trans (or_iff_left hsome)

/-- The radius at the bearing leads to the end of the chord. -/
theorem offset_rimBearing (chord : ℝ) (hheight : height ≠ 0) :
    Bearing.offset (bareRadius chord height) (rimBearing chord height) = rim chord height := by
  rw [← length_rim hheight]
  exact Bearing.offset_ofOffset _

theorem offset_neg_rimBearing (hheight : height ≠ 0) :
    Bearing.offset (bareRadius chord height) (-rimBearing chord height) =
      ⟨-(|chord| / 2), bareRadius chord height - |height|⟩ := by
  have hrim := offset_rimBearing chord hheight
  have hx : bareRadius chord height * Real.sin (rimBearing chord height) = |chord| / 2 :=
    congrArg Offset.x hrim
  have hy : bareRadius chord height * Real.cos (rimBearing chord height) =
      bareRadius chord height - |height| := congrArg Offset.y hrim
  show (⟨_ * Real.sin (-_), _ * Real.cos (-_)⟩ : Offset ℝ) = _
  rw [Real.sin_neg, Real.cos_neg, mul_neg, hx, hy]

/-- Without compensation the radius is that of the circle over the chord. -/
theorem spans_of_on (hchord : a.chord = some chord) (hheight : a.height = some height)
    (hon : a.side = .on) (hne : height ≠ 0) :
    a.Spans tool chord height (bareRadius chord height) where
  chord_eq := hchord
  height_eq := hheight
  height_ne := hne
  radius_eq := by rw [Side.radiusChange_eq_zero.mpr (Or.inl hon), add_zero]
  radius_pos := bareRadius_pos chord hne

/-- The arc over a chord, cut along the programmed line. -/
noncomputable def arcOver (a : ChordArc ℝ) (start : Point ℝ) (chord height : ℝ) : Arc ℝ :=
  (a.orderOf start chord height (bareRadius chord height)).arcFrom start

section

variable (a start)

/-- The arc starts at one end of its chord, by the bearing from its center. -/
theorem wayTo_arcOver_start (hheight : height ≠ 0) :
    (a.arcOver start chord height).centerPoint.wayTo (a.arcOver start chord height).start =
      Bearing.offset (bareRadius chord height)
        (if a.turn.isClockwise then -rimBearing chord height else rimBearing chord height) := by
  refine (a.wayTo_start start chord height (bareRadius chord height)).trans ?_
  unfold span
  split
  · rw [offset_neg_rimBearing hheight]
  · rw [offset_rimBearing chord hheight, neg_div, neg_neg]
    rfl

theorem wayTo_arcOver_finish (hheight : height ≠ 0) :
    (a.arcOver start chord height).centerPoint.wayTo (a.arcOver start chord height).finish =
      Bearing.offset (bareRadius chord height)
        (if a.turn.isClockwise then rimBearing chord height else -rimBearing chord height) := by
  refine (a.wayTo_finish start chord height (bareRadius chord height)).trans ?_
  unfold span
  split
  · rw [offset_rimBearing chord hheight]
    rfl
  · rw [offset_neg_rimBearing hheight, neg_div]

/-- **The arc goes from one end of its chord to the other.** -/
theorem sweep_arcOver (hheight : height ≠ 0) (hwide : chord = 0 ∨ tolerance < |chord|) :
    (a.arcOver start chord height).sweep = 2 * rimBearing chord height := by
  rcases hwide with rfl | hwide
  · rw [rimBearing_zero hheight]
    refine Arc.sweep_of_closed _ ?_
    have hsame : (a.arcOver start 0 height).finish = start := by
      simp [arcOver, orderOf, span, ArcOrder.arcFrom, Point.shift]
    show start.Near _
    rw [hsame]
    exact near_refl start
  · have hopen : ¬(a.arcOver start chord height).Closed := by
      rintro ⟨hx, -⟩
      have hnear : |start.x - (start.x + a.span chord)| ≤ tolerance := hx
      rw [sub_add_cancel_left, abs_neg, abs_span] at hnear
      exact hwide.not_ge hnear
    have hnonneg := rimBearing_nonneg chord height
    have hlt := rimBearing_lt height (abs_pos.mp (tolerance_pos.trans hwide))
    refine Arc.sweep_of_bearings (bareRadius_pos chord hheight) hopen
      (wayTo_arcOver_start a start hheight) ?_ (by linarith) (by linarith)
    rw [wayTo_arcOver_finish a start hheight]
    show _ = Bearing.offset _ (if a.turn.isClockwise then _ + _ else _ - _)
    congr 1
    split <;> ring

/-- Halfway the arc is above its center, by its radius, which is at its apex. -/
theorem arcOver_middle (hheight : height ≠ 0) :
    (a.arcOver start chord height).start.turned (a.arcOver start chord height).centerPoint
        (a.arcOver start chord height).clockwise (rimBearing chord height) =
      start.shift ⟨a.span chord / 2, |height|⟩ := by
  rw [Arc.point_of_bearing (wayTo_arcOver_start a start hheight)]
  have hnorth : (if a.turn.isClockwise
      then (if a.turn.isClockwise then -rimBearing chord height else rimBearing chord height) +
        rimBearing chord height
      else (if a.turn.isClockwise then -rimBearing chord height else rimBearing chord height) -
        rimBearing chord height) = 0 := by
    split <;> ring
  show (start.shift ⟨a.span chord / 2, |height| - bareRadius chord height⟩).shift
    (Bearing.offset _ (if a.turn.isClockwise then _ + _ else _ - _)) = _
  rw [hnorth]
  show (⟨start.x + a.span chord / 2 + _ * Real.sin 0,
    start.y + (|height| - bareRadius chord height) + _ * Real.cos 0⟩ : Point ℝ) = ⟨_, _⟩
  rw [Real.sin_zero, Real.cos_zero]
  congr 1 <;> ring

end

/-- **Halfway a chord arc passes its apex.** Without compensation it goes to the end of its chord,
to the right when it is cut clockwise and to the left otherwise. Either way the point at half its
sweep lies above the middle of the chord, by the height. The sweep is less than half a turn if twice
the height is less than the chord, and a whole turn over a chord of no length. -/
theorem passes_apex (hchord : a.chord = some chord) (hheight : a.height = some height)
    (hon : a.side = .on) (hwide : chord = 0 ∨ tolerance < |chord|) (hne : height ≠ 0)
    (start : Point ℝ) (tool : Tool ℝ) :
    ∃ o, a.order start tool = .ok o ∧ o.turn = a.turn ∧
      o.finish = start.shift ⟨a.span chord, 0⟩ ∧
      (∀ m : Machine ℝ, m.position.point = start →
        (ArcPlan.ofOrder o tool m).outline = o.arcFrom start) ∧
      ((o.arcFrom start).sweep < Real.pi ↔ 2 * |height| < |chord|) ∧
      ((o.arcFrom start).sweep = 2 * Real.pi ↔ chord = 0) ∧
      ∀ (st : Stretch ℝ) (d : Depth ℝ) (arcStep feed : ℝ),
        (Sampler.ofArc (o.arcFrom start) st d arcStep feed).point
            ((Sampler.ofArc (o.arcFrom start) st d arcStep feed).sweep / 2) =
          st.point (start.shift ⟨a.span chord / 2, |height|⟩) := by
  have hsweep : (a.arcOver start chord height).sweep = 2 * rimBearing chord height :=
    sweep_arcOver a start hne hwide
  refine ⟨_, (spans_of_on hchord hheight hon hne).order_eq start, rfl, rfl, ?_, ?_, ?_,
    fun st d arcStep feed => ?_⟩
  · rintro m rfl
    exact ArcPlan.outline_ofOrder _ tool m
  · show (a.arcOver start chord height).sweep < Real.pi ↔ _
    rw [hsweep, ← rimBearing_lt_half hne, lt_div_iff₀ two_pos, mul_comm]
  · show (a.arcOver start chord height).sweep = 2 * Real.pi ↔ _
    rw [hsweep]
    refine ⟨fun hwhole => ?_, ?_⟩
    · by_contra hsome
      linarith [rimBearing_lt height hsome]
    · rintro rfl
      rw [rimBearing_zero hne]
  · have hhalf : (a.arcOver start chord height).sweep / 2 = rimBearing chord height := by
      rw [hsweep]
      ring
    rw [Sampler.point_ofArc]
    show st.point ((a.arcOver start chord height).start.turned _ _
      ((a.arcOver start chord height).sweep / 2)) = _
    rw [hhalf]
    exact congrArg st.point (arcOver_middle a start hne)

/-- The horseshoe goes to the left end of its chord, and more than half round on its way, over its
apex. -/
theorem horseshoe_passes_apex :
    horseshoe.side = .on ∧ ((-6 : ℝ) = 0 ∨ tolerance < |(-6 : ℝ)|) ∧ (-9 : ℝ) ≠ 0 ∧
      ∃ o, horseshoe.order ⟨1, 2⟩ .standard = .ok o ∧ o.finish = ⟨-5, 2⟩ ∧
        Real.pi ≤ (o.arcFrom ⟨1, 2⟩).sweep ∧
        ∀ (d : Depth ℝ) (arcStep feed : ℝ),
          (Sampler.ofArc (o.arcFrom ⟨1, 2⟩) (.identity ⟨1, 2⟩) d arcStep feed).point
            ((o.arcFrom ⟨1, 2⟩).sweep / 2) = ⟨-2, 11⟩ := by
  have hwide : (-6 : ℝ) = 0 ∨ tolerance < |(-6 : ℝ)| := by
    right
    unfold tolerance
    norm_num
  have hne : (-9 : ℝ) ≠ 0 := by norm_num
  obtain ⟨o, ho, -, hfinish, -, hflat, -, happex⟩ :=
    passes_apex (a := horseshoe) rfl rfl rfl hwide hne ⟨1, 2⟩ .standard
  refine ⟨rfl, hwide, hne, o, ho, ?_, ?_, fun d arcStep feed => ?_⟩
  · rw [hfinish]
    simp only [span, horseshoe, Turn.isClockwise, Point.shift, abs_neg]
    norm_num
  · rw [← not_lt, hflat]
    norm_num
  · refine (happex (.identity ⟨1, 2⟩) d arcStep feed).trans ?_
    simp only [span, horseshoe, Turn.isClockwise, Point.shift, Stretch.point, Stretch.identity,
      Stretch.offset, Offset.scale, Point.wayTo, abs_neg, real_one]
    norm_num

end ChordArc

end Toolpath
