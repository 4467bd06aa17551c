import Toolpath.Proofs.Arc.Nest
import Toolpath.Proofs.Rectangle.Nest

/-!
# The limit on pocket passes

A pocket is refused if more whole steps fit into it than the limit allows. Its rings and its laps
are counted otherwise, in exact arithmetic: a ring is cut for every step that is begun, and one more
lap than there are whole steps. So an accepted pocket may take one ring or one lap more than the
limit, and it does so exactly if the steps up to the limit leave something of it.

* `ArcPlan.CutsRings`, `ArcOrder.cutsRings` — how many rings the passes of an order go round
* `Rectangle.levelLaps`, `Rectangle.levelLaps_le_iff` — how many laps a pass goes round
* `Command.within_limit_iff` — when a command keeps the limit
-/

namespace Toolpath

open Scalar RealScalar

/-! ## Rings -/

/-- Each pass goes round a number of nested rings, and cuts nothing else. -/
structure ArcPlan.CutsRings (p : ArcPlan ℝ) (m : Machine ℝ) (count : ℕ) : Prop where
  concentric : p.Concentric count
  cuts : ∀ k, (p.passMoves k m).filter Move.cuts =
    (List.range count).flatMap
      (p.roundMoves (p.leaving k m).1 m.feeds.xyPerMinute p.ringOffset)

/-- **The rings of a checked pocket.** There is one for every step that is begun. -/
theorem ArcOrder.cutsRings {o : ArcOrder ℝ} {tool : Tool ℝ} (hc : o.check tool = .ok ())
    (hcut : o.cut = .pocket) (m : Machine ℝ) :
    ∃ count, (ArcPlan.ofOrder o tool m).CutsRings m count ∧ count ≤ maxPasses + 1 ∧
      (count ≤ maxPasses ↔ o.center.length ≤ maxPasses * o.ringStep tool) := by
  obtain ⟨hcenter, n, hn⟩ := of_check_pocket hc hcut
  obtain ⟨_, hv, -⟩ := exists_of_bind_eq_ok hc
  obtain ⟨hstep, -, hnext, hfew⟩ := of_passCount hn
  rw [abs_of_pos hcenter] at hnext
  have hlie := ArcPlan.concentric (p := .ofOrder o tool m) hcenter hn
    (scale_ne_zero_of_validate hv).1
  have hlast (j : ℕ) : _ ≤ j ↔ o.center.length ≤ j * o.ringStep tool :=
    not_lt.symm.trans ((not_congr (hlie.lt_iff j)).trans not_lt)
  have hcuts (k : ℕ) := ArcPlan.filter_cuts_of_pocket _ hcut hlie.rings_eq k m
  refine ⟨_, ⟨hlie, hcuts⟩, (hlast _).mpr ?_, hlast _⟩
  have hsteps : (n + 1 : ℝ) ≤ (maxPasses + 1 : ℕ) := by exact_mod_cast Nat.succ_le_succ hfew
  exact hnext.le.trans (mul_le_mul_of_nonneg_right hsteps hstep.le)

/-! ## Laps -/

/-- The lap that a leg goes round at one depth. -/
def Leg.levelLap? : Leg → Option ℕ
  | .lap k => some k
  | _ => none

namespace Rectangle

/-- The laps that a pass goes round at one depth. The way down along a ramp is not among them. -/
def levelLaps {α : Type} [Scalar α] (r : Rectangle α) (l : Layout α) (k : ℕ) : List ℕ :=
  (r.legs l (k == 0)).filterMap Leg.levelLap?

section

variable {α : Type} [Scalar α] {r : Rectangle α} {l : Layout α}

/-- A pass goes round all laps, the first one excepted if it is a ramp and others follow. -/
theorem levelLaps_eq (r : Rectangle α) (l : Layout α) (k : ℕ) :
    r.levelLaps l k = (if r.ramps (k == 0) ∧ r.passes.repetitions ≠ 1 then [] else [0]) ++
      (List.range (l.laps - 1)).map (· + 1) := by
  have hinner : l.innerLegs.filterMap Leg.levelLap? = (List.range (l.laps - 1)).map (· + 1) := by
    rw [Layout.innerLegs, List.filterMap_flatMap, List.map_eq_flatMap]
    rfl
  unfold levelLaps legs
  rw [List.filterMap_append, hinner]
  by_cases hramps : r.ramps (k == 0) = true
  · by_cases hone : r.passes.repetitions = 1
    · rw [if_pos hramps, if_pos hone, if_neg fun h => h.2 hone]
      rfl
    · rw [if_pos hramps, if_neg hone, if_pos ⟨hramps, hone⟩]
      rfl
  · rw [if_neg hramps, if_neg fun h => hramps h.1]
    rfl

theorem length_levelLaps_le (h : l.Proper) (k : ℕ) : (r.levelLaps l k).length ≤ l.laps := by
  have hfirst : (if r.ramps (k == 0) ∧ r.passes.repetitions ≠ 1 then [] else [0]).length ≤ 1 := by
    split
    · exact Nat.zero_le 1
    · exact le_rfl
  have hpos := h.laps_pos
  rw [levelLaps_eq, List.length_append, List.length_map, List.length_range]
  omega

/-- Some pass goes round all laps: the only one, or any that does not ramp. -/
theorem exists_length_levelLaps (h : l.Proper) (hr : r.passes.repetitions ≠ 0) :
    ∃ k < r.passes.repetitions.toNat, (r.levelLaps l k).length = l.laps := by
  have hpos := h.laps_pos
  have hall (k : ℕ) (hk : ¬(r.ramps (k == 0) = true ∧ r.passes.repetitions ≠ 1)) :
      (r.levelLaps l k).length = l.laps := by
    rw [levelLaps_eq, if_neg hk, List.length_append, List.length_map, List.length_range,
      List.length_singleton]
    omega
  obtain ⟨n, hn⟩ := Passes.exists_succ hr
  by_cases hone : r.passes.repetitions = 1
  · exact ⟨0, by omega, hall 0 fun h => h.2 hone⟩
  · have hmore : n ≠ 0 := by
      rintro rfl
      exact hone (UInt32.toNat_inj.mp hn)
    have hlevel : ¬r.ramps (1 == 0) = true := by simp [ramps]
    exact ⟨1, by omega, hall 1 fun h => hlevel h.1⟩

end

/-- **The laps of a pocket.** There is one more than there are whole steps, and some pass goes round
all of them. -/
theorem levelLaps_le_iff {r : Rectangle ℝ} {position : Point ℝ} {tool : Tool ℝ} {l : Layout ℝ}
    (hl : Layout.ofRectangle r position tool = .ok l) (hcut : r.cut.isPocket = true) :
    (∀ k, (r.levelLaps l k).length ≤ maxPasses + 1) ∧
      ((∀ k < r.passes.repetitions.toNat, (r.levelLaps l k).length ≤ maxPasses) ↔
        l.halfWidth < maxPasses * l.stepOver) := by
  have hproper := Layout.Proper.of_ofRectangle hl
  have hpos := hproper.laps_pos
  obtain ⟨hr, -, -⟩ := Layout.of_ofRectangle hl
  obtain ⟨hstep, hfits, hnext, hfew⟩ := of_passCount (Layout.passCount_of_ofRectangle hl hcut)
  rw [abs_of_nonneg l.halfWidth_nonneg] at hfits hnext
  have hlaps : l.laps ≤ maxPasses ↔ l.halfWidth < maxPasses * l.stepOver := by
    constructor
    · intro hle
      have hsteps : ((l.laps - 1 : ℕ) : ℝ) + 1 ≤ maxPasses := by exact_mod_cast (by omega)
      exact hnext.trans_le (mul_le_mul_of_nonneg_right hsteps hstep.le)
    · intro hroom
      have hless : ((l.laps - 1 : ℕ) : ℝ) < maxPasses :=
        lt_of_mul_lt_mul_right (hfits.trans_lt hroom) hstep.le
      have hless : l.laps - 1 < maxPasses := by exact_mod_cast hless
      omega
  refine ⟨fun k => (length_levelLaps_le hproper k).trans (by omega), ?_⟩
  rw [← hlaps]
  constructor
  · intro hall
    obtain ⟨k, hk, hlength⟩ := exists_length_levelLaps hproper hr
    exact hlength.symm.trans_le (hall k hk)
  · exact fun hle k _ => (length_levelLaps_le hproper k).trans hle

end Rectangle

/-! ## The limit -/

namespace Command

/-- **When a command keeps the limit.** A pass over a pocket takes one ring or one lap more than the
limit at most. None takes more than the limit exactly if as many steps as it allows cover the radius
of a circle, or reach beyond half of the shorter side of a rectangle. -/
theorem within_limit_iff {c : Command ℝ} {tool : Tool ℝ} {m : Machine ℝ}
    (h : (c.execute tool m).rejection = none) :
    (∃ o m', c.HandsOn tool m o m' ∧
      c.execute tool m = ⟨(ArcPlan.ofOrder o tool m').carryOut m', none⟩ ∧
      (o.cut = .pocket → ∃ count, (ArcPlan.ofOrder o tool m').CutsRings m' count ∧
        count ≤ maxPasses + 1 ∧
        (count ≤ maxPasses ↔ o.center.length ≤ maxPasses * o.ringStep tool))) ∨
    ∃ r l, c = .rectangle r ∧ Layout.ofRectangle r m.position.point tool = .ok l ∧
      c.execute tool m = ⟨r.carryOut tool l m, none⟩ ∧
      (∀ k, r.passMoves tool l m k =
        r.sinkMoves tool l m k ++ (r.legs l (k == 0)).flatMap (r.cutMoves tool l m k)) ∧
      (r.cut.isPocket = true → (∀ k, (r.levelLaps l k).length ≤ maxPasses + 1) ∧
        ((∀ k < r.passes.repetitions.toNat, (r.levelLaps l k).length ≤ maxPasses) ↔
          l.halfWidth < maxPasses * l.stepOver)) := by
  rcases exists_of_accepted h with ⟨o, m', hon, hc, he⟩ | ⟨r, l, rfl, hl, he⟩
  · exact Or.inl ⟨o, m', hon, he, fun hcut => o.cutsRings hc hcut m'⟩
  · exact Or.inr ⟨r, l, rfl, hl, he, fun k => Rectangle.passMoves_eq m k,
      Rectangle.levelLaps_le_iff hl⟩

/-! ### Ten thousand steps -/

/-- A tool that steps over by one. -/
noncomputable def unitTool : Tool ℝ :=
  { Tool.standard with cutterDiameter := 1, pocketOverlap := 0 }

theorem unitTool_stepOver : unitTool.stepOver = 1 := by
  simp only [Tool.stepOver, unitTool]
  norm_num

/-- Ten thousand of its steps, and no more, fit into this size. -/
theorem unitTool_count {size : ℝ} (hmost : 10000 ≤ size) (hless : size < 10001) :
    passCount size unitTool.stepOver = .ok maxPasses := by
  rw [unitTool_stepOver]
  refine passCount_of_fits one_pos ?_ ?_ le_rfl
  · rw [abs_of_pos (by linarith), maxPasses]
    norm_num
    exact hmost
  · rw [abs_of_pos (by linarith), maxPasses]
    norm_num
    exact hless

/-- A circular pocket around a center that far to the right. -/
noncomputable def vastCircle (radius : ℝ) : RelativeArc ℝ :=
  ⟨some 0, some 0, some radius, some 0, .clockwise, .single, ⟨1, 1⟩, .pocket⟩

/-- Its order. -/
noncomputable def vastOrder (radius : ℝ) : ArcOrder ℝ := ArcOrder.roundPocket radius

theorem vastCircle_order (radius : ℝ) (start : Point ℝ) :
    (vastCircle radius).order start = .ok (vastOrder radius) := rfl

theorem vastOrder_length {radius : ℝ} (hr : 0 < radius) :
    (vastOrder radius).center.length = radius := ArcOrder.roundPocket_length hr

theorem vastOrder_ringStep (radius : ℝ) : (vastOrder radius).ringStep unitTool = 1 := by
  rw [ArcOrder.ringStep_of_unit rfl, unitTool_stepOver]

/-- One more step than the limit would not be accepted. -/
theorem vastOrder_check {radius : ℝ} (hmost : 10000 ≤ radius) (hless : radius < 10001) :
    (vastOrder radius).check unitTool = .ok () :=
  ArcOrder.roundPocket_check (by linarith) (unitTool_count hmost hless)

theorem vastCircle_accepted {radius : ℝ} (hmost : 10000 ≤ radius) (hless : radius < 10001) :
    ((Command.arc (vastCircle radius)).execute unitTool ArcOrder.overOrigin).rejection = none :=
  rejection_of_ok (vastOrder_check hmost hless)

/-- Ten thousand steps cover this circle, and it takes as many rings. -/
theorem vastCircle_within_limit :
    ((Command.arc (vastCircle 10000)).execute unitTool ArcOrder.overOrigin).rejection = none ∧
      ∃ count, (ArcPlan.ofOrder (vastOrder 10000) unitTool ArcOrder.overOrigin).CutsRings
        ArcOrder.overOrigin count ∧ count ≤ maxPasses := by
  have haccepted : ((Command.arc (vastCircle 10000)).execute unitTool
      ArcOrder.overOrigin).rejection = none := vastCircle_accepted le_rfl (by norm_num)
  refine ⟨haccepted, ?_⟩
  rcases within_limit_iff haccepted with ⟨o, m', hon, -, hrings⟩ | ⟨r, _, hr, -⟩
  · cases hon with
    | arc ho =>
      obtain rfl : vastOrder 10000 = _ := Except.ok.inj ((vastCircle_order 10000 _).symm.trans ho)
      obtain ⟨count, hcuts, -, hiff⟩ := hrings rfl
      refine ⟨count, hcuts, hiff.mpr ?_⟩
      rw [vastOrder_length (by norm_num), vastOrder_ringStep, maxPasses]
      norm_num
  · cases hr

/-- A square pocket, with half a step more than ten thousand to its middle. -/
noncomputable def vastSquare : Rectangle ℝ :=
  { Rectangle.shallowPocket with lenX := some 20001, lenY := some 20001 }

theorem vastSquare_layout :
    ∃ l, Layout.ofRectangle vastSquare ⟨0, 0⟩ unitTool = .ok l ∧ l.laps = maxPasses + 1 := by
  have hcount : passCount (Min.min (20001 : ℝ) 20001 / 2) unitTool.stepOver = .ok maxPasses :=
    unitTool_count (by norm_num) (by norm_num)
  obtain ⟨l, hl, hlaps, -⟩ := Layout.exists_ofRectangle_pocket (r := vastSquare) ⟨0, 0⟩ rfl rfl
    (show (1 : UInt32) ≠ 0 by decide) rfl rfl (by norm_num) (by norm_num) hcount
  exact ⟨l, hl, hlaps⟩

/-- A circle with half a step more, and this square, are accepted all the same. They take one ring
and one lap more than the limit. -/
theorem vast_over_limit :
    (((Command.arc (vastCircle 10000.5)).execute unitTool ArcOrder.overOrigin).rejection = none ∧
      (Command.arc (vastCircle 10000.5)).HandsOn unitTool ArcOrder.overOrigin (vastOrder 10000.5)
        ArcOrder.overOrigin ∧
      (ArcPlan.ofOrder (vastOrder 10000.5) unitTool ArcOrder.overOrigin).CutsRings
        ArcOrder.overOrigin (maxPasses + 1)) ∧
    ((Command.rectangle vastSquare).execute unitTool ArcOrder.overOrigin).rejection = none ∧
      ∃ l, Layout.ofRectangle vastSquare ArcOrder.overOrigin.position.point unitTool = .ok l ∧
        (vastSquare.levelLaps l 0).length = maxPasses + 1 := by
  have hmost : (10000 : ℝ) ≤ 10000.5 := by norm_num
  have hless : (10000.5 : ℝ) < 10001 := by norm_num
  refine ⟨⟨vastCircle_accepted hmost hless, .arc rfl, ?_⟩, ?_⟩
  · obtain ⟨count, hcuts, hle, hiff⟩ :=
      ArcOrder.cutsRings (vastOrder_check hmost hless) rfl ArcOrder.overOrigin
    have hmore : ¬count ≤ maxPasses := by
      rw [hiff, vastOrder_length (by norm_num), vastOrder_ringStep, maxPasses]
      norm_num
    obtain rfl : count = maxPasses + 1 := by omega
    exact hcuts
  · obtain ⟨l, hl, hlaps⟩ := vastSquare_layout
    refine ⟨?_, l, hl, ?_⟩
    · refine rejection_of_ok (m := ArcOrder.overOrigin) ?_
      show (Layout.ofRectangle vastSquare ⟨0, 0⟩ unitTool).map _ = _
      rw [hl]
      rfl
    · have hlevel : ¬vastSquare.ramps (0 == 0) = true := by
        simp [Rectangle.ramps, vastSquare, Rectangle.shallowPocket]
      rw [Rectangle.levelLaps_eq, if_neg fun h => hlevel h.1, List.length_append, List.length_map,
        List.length_range, hlaps]
      rfl

end Command

end Toolpath
