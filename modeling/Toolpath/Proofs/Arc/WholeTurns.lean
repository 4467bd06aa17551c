import Toolpath.Proofs.Arc.Circle
import Toolpath.Proofs.Arc.Depth
import Toolpath.Proofs.Rectangle.Corners

/-!
# Whole turns

A bearing and the same bearing some whole turns on name the same direction, in exact arithmetic. A
circle is ordered in the same way if whole turns are added to its bearings; only the end of one that
starts at the current position may move, by noise. And a circle whose bearings name one direction
goes all the way round, whether they are the same number or not: its end is near its start wherever
the tool begins, so the plan takes it for closed, and its segments go through a whole turn.

* `Bearing.offset_radians_add_turns` — whole turns do not change where a bearing leads
* `Circle.withTurns`, `BearingCircle.order_withTurns`, `CenterCircle.order_withTurns` — nor what a
  circle orders
* `Circle.IsRound`, `ArcPlan.GoesAround` — a circle from a direction to itself, and its plan
* `Circle.bearings_mod_turn` — bearings count modulo a whole turn
-/

namespace Toolpath

open Scalar RealScalar

/-- Whole turns in degrees make no difference to where a bearing leads. -/
theorem Bearing.offset_radians_add_turns (length bearing : ℝ) (n : ℤ) :
    offset length (radians (bearing + 360 * n)) = offset length (radians bearing) := by
  have hturns : radians (bearing + 360 * n) = radians bearing + n * (2 * Real.pi) := by
    show (bearing + 360 * n) * (Real.pi / 180) = bearing * (Real.pi / 180) + n * (2 * Real.pi)
    ring
  rw [hturns, offset_add_turns]

/-! ## Whole turns added -/

/-- The same circle with whole turns added to its bearings. -/
noncomputable def Circle.withTurns (c : Circle ℝ) (atStart atEnd : ℤ) : Circle ℝ :=
  { c with
    startBearing := c.startBearing + 360 * atStart
    endBearing := c.endBearing + 360 * atEnd }

/-- The same circle with whole turns added to its bearings. -/
noncomputable def BearingCircle.withTurns (c : BearingCircle ℝ) (atStart atEnd : ℤ) :
    BearingCircle ℝ :=
  ⟨c.toCircle.withTurns atStart atEnd⟩

/-- The same circle with whole turns added to its bearings. -/
noncomputable def CenterCircle.withTurns (c : CenterCircle ℝ) (atStart atEnd : ℤ) :
    CenterCircle ℝ :=
  { c with toCircle := c.toCircle.withTurns atStart atEnd }

theorem Circle.HasRadius.withTurns {c : Circle ℝ} {tool : Tool ℝ} {radius : ℝ}
    (h : c.HasRadius tool radius) (atStart atEnd : ℤ) :
    (c.withTurns atStart atEnd).HasRadius tool radius :=
  ⟨h.diameter_pos, h.radius_pos⟩

/-- The two ways from a point to one of a circle near it have the same length on both axes. -/
theorem Point.isNoise_wayTo_comm {p q : Point ℝ} (h : (p.wayTo q).IsNoise) :
    (q.wayTo p).IsNoise := by
  obtain ⟨hx, hy⟩ := h
  refine ⟨?_, ?_⟩
  · rwa [show (q.wayTo p).x = -(p.wayTo q).x from (neg_sub _ _).symm, abs_neg]
  · rwa [show (q.wayTo p).y = -(p.wayTo q).y from (neg_sub _ _).symm, abs_neg]

theorem Point.isNoise_wayTo_self (p : Point ℝ) : (p.wayTo p).IsNoise := by
  simpa [wayTo] using Offset.isNoise_zero

/-- Going round from the current position, about a center without its noise, leads back but for
noise. -/
theorem BearingCircle.isNoise_round (start : Point ℝ) (radius bearing : ℝ) :
    (start.wayTo ((start.shift (Bearing.offset (-radius) bearing).denoised).shift
      (Bearing.offset radius bearing))).IsNoise := by
  have hlost : start.wayTo ((start.shift (Bearing.offset (-radius) bearing).denoised).shift
      (Bearing.offset radius bearing)) =
        (Bearing.offset (-radius) bearing).denoised.sub (Bearing.offset (-radius) bearing) := by
    simp only [Point.wayTo, Point.shift, Offset.sub, Bearing.offset]
    congr 1 <;> ring
  rw [hlost]
  exact Offset.isNoise_denoised_sub _

/-- **Whole turns do not change what a circle from the current position orders**, but for noise in
its end: where the bearings have become equal, or are equal no more, the end is the start itself, or
the way round to it. -/
theorem BearingCircle.order_withTurns (c : BearingCircle ℝ) (tool : Tool ℝ) (start : Point ℝ)
    (atStart atEnd : ℤ) :
    (∃ cause, c.order start tool = .error cause ∧
      (c.withTurns atStart atEnd).order start tool = .error cause) ∨
    ∃ o finish, c.order start tool = .ok o ∧
      (c.withTurns atStart atEnd).order start tool = .ok { o with finish := finish } ∧
      (o.finish.wayTo finish).IsNoise := by
  cases hr : c.radius tool with
  | error cause =>
    refine Or.inl ⟨cause, ?_, ?_⟩
    · rw [order, hr]
      rfl
    · have hr' : (c.withTurns atStart atEnd).radius tool = .error cause := hr
      rw [order, hr']
      rfl
  | ok radius =>
    have hhas := Circle.radius_ok_iff.mp hr
    have hfirst (length : ℝ) := Bearing.offset_radians_add_turns length c.startBearing atStart
    have hlast (length : ℝ) := Bearing.offset_radians_add_turns length c.endBearing atEnd
    have hround := isNoise_round start radius (radians c.startBearing)
    have horder := order_of_hasRadius (c := c.withTurns atStart atEnd)
      (hhas.withTurns atStart atEnd) start
    rw [show (c.withTurns atStart atEnd).startBearing = c.startBearing + 360 * atStart from rfl,
      show (c.withTurns atStart atEnd).endBearing = c.endBearing + 360 * atEnd from rfl,
      hfirst, hlast] at horder
    refine Or.inr ⟨_, _, order_of_hasRadius hhas start, horder, ?_⟩
    show (Point.wayTo (if c.isFull then start else _)
      (if (c.withTurns atStart atEnd).isFull then start else _)).IsNoise
    by_cases hfull : c.isFull = true
    · rw [if_pos hfull]
      split
      · exact start.isNoise_wayTo_self
      · rwa [← Circle.isFull_iff.mp hfull]
    · rw [if_neg hfull]
      split
      · rename_i hfull'
        -- the bearings have become equal, so they named one direction before
        have hsame : c.startBearing + 360 * atStart = c.endBearing + 360 * atEnd :=
          Circle.isFull_iff.mp hfull'
        rw [← hlast, ← hsame, hfirst]
        exact Point.isNoise_wayTo_comm hround
      · exact Point.isNoise_wayTo_self _

/-- **Whole turns do not change what a circle around a center orders.** -/
theorem CenterCircle.order_withTurns (c : CenterCircle ℝ) (tool : Tool ℝ) (position : Point ℝ)
    (atStart atEnd : ℤ) :
    (c.withTurns atStart atEnd).order position tool = c.order position tool := by
  cases hr : c.radius tool with
  | error cause =>
    have hr' : (c.withTurns atStart atEnd).radius tool = .error cause := hr
    rw [order, order, hr, hr']
    rfl
  | ok radius =>
    have hhas := Circle.radius_ok_iff.mp hr
    have hpoint (bearing : ℝ) (n : ℤ) :
        c.pointAt position radius (bearing + 360 * n) = c.pointAt position radius bearing := by
      rw [pointAt, Bearing.offset_radians_add_turns, pointAt]
    have horder := order_of_hasRadius (c := c.withTurns atStart atEnd)
      (hhas.withTurns atStart atEnd) position
    rw [show (c.withTurns atStart atEnd).startBearing = c.startBearing + 360 * atStart from rfl,
      show (c.withTurns atStart atEnd).endBearing = c.endBearing + 360 * atEnd from rfl,
      Bearing.offset_radians_add_turns] at horder
    have hstart := hpoint c.startBearing atStart
    have hend := hpoint c.endBearing atEnd
    refine horder.trans ((order_of_hasRadius hhas position).trans ?_).symm
    show Except.ok (_, c.orderFor _ _) = Except.ok (c.pointAt position radius _,
      c.orderFor (c.pointAt position radius _) _)
    rw [hstart, hend]

/-! ## All the way round -/

/-- A plan whose arc goes all the way round. -/
structure ArcPlan.GoesAround (p : ArcPlan ℝ) : Prop where
  closed : p.Closed
  sweep_eq : p.outline.sweep = 2 * Real.pi
  not_degenerate : ¬p.outline.Degenerate
  /-- A pass of a profile that is cut as segments takes its steps along the whole of the arc. -/
  sampled : p.segmented = true → p.order.cut = .profile → ∀ z m,
    ∃ ds, (p.pass z m).2 = (p.sink z m).2.emitAll ds ∧
      p.outline.SampledBy p.stretch (.level (p.sink z m).1)
        (Sampler.stepFor (2 * Real.pi) p.tool.arcStep) m.feeds.xyPerMinute ds

/-- A closed arc of some radius goes all the way round. -/
theorem ArcPlan.goesAround_of_closed {p : ArcPlan ℝ} (hclosed : p.Closed)
    (hlong : tolerance < p.order.center.length) : p.GoesAround := by
  have hsweep : p.outline.sweep = 2 * Real.pi := p.outline.sweep_of_closed hclosed
  have hdegenerate : ¬p.outline.Degenerate := not_degenerate_of_closed hclosed hlong
  refine ⟨hclosed, hsweep, hdegenerate, fun hsegmented hcut z m => ?_⟩
  have hfeeds : (p.sink z m).2.feeds = m.feeds := (p.idle_sink z m).feeds_eq
  obtain ⟨hsampled, -⟩ := Arc.sampledBy_moves hdegenerate p.stretch (.level (p.sink z m).1)
    p.tool.arcStep m.feeds.xyPerMinute
  rw [hsweep] at hsampled
  refine ⟨_, ?_, hsampled⟩
  have hpass : (p.pass z m).2 = p.follow p.outline (.level (p.sink z m).1) (p.sink z m).2 := by
    rw [pass, hcut]
  rw [hpass, follow_eq, followMoves, if_pos hsegmented, hfeeds]

/-- The bearings name one direction: they are the same but for whole turns. -/
def Circle.IsRound (c : Circle ℝ) : Prop := ∃ n : ℤ, c.endBearing = c.startBearing + 360 * n

theorem Circle.IsRound.offset_eq {c : Circle ℝ} (h : c.IsRound) (length : ℝ) :
    Bearing.offset length (radians c.endBearing) =
      Bearing.offset length (radians c.startBearing) := by
  obtain ⟨n, hn⟩ := h
  rw [hn, Bearing.offset_radians_add_turns]

/-- Noise is within the tolerance. -/
theorem Point.near_of_isNoise {p q : Point ℝ} (h : (p.wayTo q).IsNoise) : p.Near q := by
  have hless : (noise : ℝ) ≤ tolerance := by
    unfold noise tolerance
    norm_num
  obtain ⟨hx, hy⟩ := isNoise_wayTo_comm h
  exact ⟨hx.le.trans hless, hy.le.trans hless⟩

/-- **A round circle from the current position goes all the way round.** -/
theorem BearingCircle.goesAround {c : BearingCircle ℝ} (hround : c.IsRound) {tool : Tool ℝ}
    {m : Machine ℝ} (h : (c.execute tool m).rejection = none) :
    ∃ o, c.order m.position.point tool = .ok o ∧
      c.execute tool m = ⟨(ArcPlan.ofOrder o tool m).carryOut m, none⟩ ∧
      (ArcPlan.ofOrder o tool m).GoesAround := by
  obtain ⟨o, m', hands, hcheck, hexecute⟩ | ⟨r, l, hr, -⟩ :=
    Command.exists_of_accepted (c := .bearingCircle c) h
  case inr => cases hr
  cases hands with
  | bearingCircle ho =>
    obtain ⟨radius, -, hfollows⟩ := order_follows ho
    have hnear := hfollows.finish_near
    rw [hround.offset_eq, Bearing.shift_offset_neg] at hnear
    exact ⟨o, ho, hexecute, ArcPlan.goesAround_of_closed (Point.near_of_isNoise hnear)
      (ArcPlan.tolerance_lt_length (ArcOrder.of_check hcheck).2.1)⟩

/-- **A round circle around a center goes all the way round**, also if the tool begins beside its
start, within the tolerance, and stays there. -/
theorem CenterCircle.goesAround {c : CenterCircle ℝ} (hround : c.IsRound) {tool : Tool ℝ}
    {m : Machine ℝ} (h : (c.execute tool m).rejection = none) :
    ∃ entry o, c.order m.position.point tool = .ok (entry, o) ∧
      c.execute tool m =
        ⟨(ArcPlan.ofOrder o tool (m.approach tool entry m.position.z)).carryOut
          (m.approach tool entry m.position.z), none⟩ ∧
      (ArcPlan.ofOrder o tool (m.approach tool entry m.position.z)).GoesAround := by
  obtain ⟨o, m', hands, hcheck, hexecute⟩ | ⟨r, l, hr, -⟩ :=
    Command.exists_of_accepted (c := .centerCircle c) h
  case inr => cases hr
  cases hands with
  | @centerCircle _ entry _ ho =>
    obtain ⟨radius, -, -, hentry, hfinish⟩ := order_follows ho
    -- the arc ends at its entry, and that is what the tool has gone over
    have hend : o.finish = entry := by
      rw [hfinish, hentry, pointAt, pointAt, hround.offset_eq]
    have hover : (m.approach tool entry m.position.z).position.Over entry :=
      Position.at_iff_over.mp (m.approach_at tool entry m.position.z)
    refine ⟨entry, o, ho, hexecute, ArcPlan.goesAround_of_closed ?_
      (ArcPlan.tolerance_lt_length (ArcOrder.of_check hcheck).2.1)⟩
    show (m.approach tool entry m.position.z).position.point.Near o.finish
    rw [hend]
    exact hover

/-- **Bearings count modulo a whole turn.** Whole turns added to the bearings of a circle change
neither whether it can be ordered nor what is ordered, except for noise in the end of one that
starts at the current position. A circle whose bearings are the same but for whole turns goes all
the way round, from wherever the tool begins. -/
theorem Circle.bearings_mod_turn (tool : Tool ℝ) :
    (∀ (c : BearingCircle ℝ) (start : Point ℝ) (atStart atEnd : ℤ),
      (∃ cause, c.order start tool = .error cause ∧
        (c.withTurns atStart atEnd).order start tool = .error cause) ∨
      ∃ o finish, c.order start tool = .ok o ∧
        (c.withTurns atStart atEnd).order start tool = .ok { o with finish := finish } ∧
        (o.finish.wayTo finish).IsNoise) ∧
    (∀ (c : CenterCircle ℝ) (position : Point ℝ) (atStart atEnd : ℤ),
      (c.withTurns atStart atEnd).order position tool = c.order position tool) ∧
    (∀ (c : BearingCircle ℝ) (m : Machine ℝ), c.IsRound →
      (c.execute tool m).rejection = none →
        ∃ o, c.order m.position.point tool = .ok o ∧
          c.execute tool m = ⟨(ArcPlan.ofOrder o tool m).carryOut m, none⟩ ∧
          (ArcPlan.ofOrder o tool m).GoesAround) ∧
    ∀ (c : CenterCircle ℝ) (m : Machine ℝ), c.IsRound →
      (c.execute tool m).rejection = none →
        ∃ entry o, c.order m.position.point tool = .ok (entry, o) ∧
          c.execute tool m =
            ⟨(ArcPlan.ofOrder o tool (m.approach tool entry m.position.z)).carryOut
              (m.approach tool entry m.position.z), none⟩ ∧
          (ArcPlan.ofOrder o tool (m.approach tool entry m.position.z)).GoesAround :=
  ⟨fun c start atStart atEnd => c.order_withTurns tool start atStart atEnd,
    fun c position atStart atEnd => c.order_withTurns tool position atStart atEnd,
    fun _ _ hround h => BearingCircle.goesAround hround h,
    fun _ _ hround h => CenterCircle.goesAround hround h⟩

/-! ### From north to north, two turns on -/

/-- A circle of radius one, whose end bearing is two turns beyond its start. -/
noncomputable def northToNorth : Circle ℝ := { northToEast .clockwise with endBearing := 720 }

namespace northToNorth

theorem isRound : northToNorth.IsRound := by
  refine ⟨2, ?_⟩
  show (720 : ℝ) = 0 + 360 * (2 : ℤ)
  norm_num

theorem bearing_order : (BearingCircle.mk northToNorth).order ⟨0, 0⟩ .standard =
    .ok (northToNorth.orderFor ⟨0, 0⟩ ⟨0, -1⟩) := by
  have hradius : northToNorth.HasRadius .standard 1 :=
    ⟨(northToEast.hasRadius .clockwise).diameter_pos, one_pos⟩
  have hopen : ¬northToNorth.isFull = true := by
    rw [Circle.isFull_iff]
    show ¬(0 : ℝ) = 720
    norm_num
  have hnorth (length : ℝ) : Bearing.offset length (radians northToNorth.startBearing) =
      ⟨0, length⟩ := northToEast.north .clockwise length
  refine (BearingCircle.order_of_hasRadius (c := ⟨northToNorth⟩) hradius _).trans ?_
  show Except.ok (northToNorth.orderFor (if northToNorth.isFull then _ else
    (Point.shift _ (Offset.denoised _)).shift _) _) = _
  rw [if_neg hopen, isRound.offset_eq, hnorth, hnorth, northToEast.denoised_center]
  simp [Point.shift]

theorem check : (northToNorth.orderFor ⟨0, 0⟩ ⟨0, -1⟩).check .standard = .ok () := by
  have hcenter : ¬(⟨0, -1⟩ : Offset ℝ).Negligible := by
    rintro ⟨-, hy⟩
    have hy : |(-1 : ℝ)| ≤ 1e-6 := hy
    norm_num at hy
  exact ArcOrder.check_of_ne_pocket (by decide) (by decide) one_ne_zero one_ne_zero hcenter _

end northToNorth

/-- It goes all the way round, though its bearings are not the same number. -/
theorem Circle.northToNorth_goesAround :
    (northToNorth.IsRound ∧ ((BearingCircle.mk northToNorth).execute .standard
        ArcOrder.atOrigin).rejection = none) ∧
      ∃ o, (BearingCircle.mk northToNorth).order ⟨0, 0⟩ .standard = .ok o ∧
        (ArcPlan.ofOrder o .standard ArcOrder.atOrigin).GoesAround := by
  have haccepted : ((BearingCircle.mk northToNorth).execute .standard
      ArcOrder.atOrigin).rejection = none := by
    have horder : (BearingCircle.mk northToNorth).order ArcOrder.atOrigin.position.point .standard =
        _ := northToNorth.bearing_order
    rw [BearingCircle.execute, horder]
    exact congrArg Outcome.rejection (ArcOrder.execute_of_check northToNorth.check _ _)
  obtain ⟨-, -, hround, -⟩ := Circle.bearings_mod_turn (.standard : Tool ℝ)
  obtain ⟨o, ho, -, haround⟩ := hround _ _ northToNorth.isRound haccepted
  exact ⟨⟨northToNorth.isRound, haccepted⟩, o, ho, haround⟩

end Toolpath
