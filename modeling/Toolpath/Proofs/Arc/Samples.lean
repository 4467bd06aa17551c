import Mathlib.Analysis.Real.Pi.Bounds
import Toolpath.Proofs.Arc.Curve
import Toolpath.Proofs.Arc.Rings

/-!
# The samples of an arc

Where the straight segments of an arc end, in exact arithmetic. They advance by one step each, as
an angle seen from the center, and the last one goes to the end of the arc, however many steps that
takes. It takes up what is left, so it may be a little longer than the others, and it is never a
sliver.

* `Arc.TurnsTo`, `Arc.turnsTo_sweep` — the sweep is the angle from the start of an arc to its end
* `Arc.SampledBy` — moves that follow an arc step by step
* `Arc.sampledBy_moves` — the segments of an arc do
* `Sampler.samples_arc` — what a sampler yields, and what it cuts
-/

namespace Toolpath

open Scalar RealScalar

/-! ## The angle from the start to the end -/

namespace Offset

theorem scale_scale (v : Offset ℝ) (r k : ℝ) :
    (v.scale r r).scale k k = v.scale (r * k) (r * k) := by
  simp only [scale, mul_assoc]

theorem scale_one (v : Offset ℝ) : v.scale 1 1 = v := by
  simp only [scale, mul_one]

end Offset

namespace Arc

/-- Turned by an angle, less than once round, the start lies in the direction of the end. -/
def TurnsTo (a : Arc ℝ) (angle : ℝ) : Prop :=
  0 ≤ angle ∧ angle < 2 * Real.pi ∧
    a.finish.Towards a.centerPoint (a.start.turned a.centerPoint a.clockwise angle)

variable {a : Arc ℝ}

/-- If an angle turns the start to the end, no greater one does. -/
theorem TurnsTo.le (hr : 0 < a.radius) (hfar : a.finish ≠ a.centerPoint) {x y : ℝ}
    (hx : a.TurnsTo x) (hy : a.TurnsTo y) : y ≤ x := by
  by_contra hlt
  obtain ⟨hpos, -, r, hr0, hway⟩ := hx
  obtain ⟨-, hless, k, hk0, hway'⟩ := hy
  set v := (a.centerPoint.wayTo a.start).turned a.clockwise x with hv
  have hlength : 0 < v.length := by
    rw [hv, Offset.length_turned, length_wayTo_start]
    exact hr
  have hnext : (a.centerPoint.wayTo a.start).turned a.clockwise y =
      v.turned a.clockwise (y - x) := by
    rw [hv, Offset.turned_turned, add_sub_cancel]
  rw [Point.wayTo_turned, ← hv] at hway
  rw [Point.wayTo_turned, hnext] at hway'
  have hsome : r ≠ 0 := by
    rintro rfl
    have hzero : a.centerPoint.wayTo a.finish = ⟨0, 0⟩ := by
      rw [hway]
      simp [Offset.scale]
    refine hfar ?_
    rw [← Point.shift_wayTo a.centerPoint a.finish, hzero]
    simp [Point.shift]
  -- the same direction would come back after a part of a turn
  have hpart : 0 < y - x := by linarith
  refine Offset.turned_scale_ne hlength a.clockwise hpart (by linarith) (r := k * r⁻¹)
    (mul_nonneg hk0 (inv_nonneg.mpr hr0)) ?_
  rw [← Offset.scale_scale, ← hway', hway, Offset.scale_scale, mul_inv_cancel₀ hsome,
    Offset.scale_one]

/-- Only one angle turns the start to the end. -/
theorem TurnsTo.unique (hr : 0 < a.radius) (hfar : a.finish ≠ a.centerPoint) {x y : ℝ}
    (hx : a.TurnsTo x) (hy : a.TurnsTo y) : x = y :=
  le_antisymm (hy.le hr hfar hx) (hx.le hr hfar hy)

/-- **The sweep of an open arc is the angle from its start to its end**, however small it is. -/
theorem turnsTo_of_open (hr : 0 < a.radius) (hopen : ¬a.Closed) : a.TurnsTo a.sweep :=
  ⟨a.sweep_nonneg, a.sweep_lt hopen, a.finish_towards hr (Or.inl hopen)⟩

theorem turnsTo_sweep (h : ¬a.Degenerate) (hopen : ¬a.Closed) : a.TurnsTo a.sweep :=
  turnsTo_of_open (radius_pos h) hopen

end Arc

/-! ## Moves that follow an arc step by step -/

/-- Straight cuts along an arc. They go to points that lie one step apart, counted as angles from
the start, and then to the end. -/
structure Arc.SampledBy (a : Arc ℝ) (st : Stretch ℝ) (d : Depth ℝ) (step feed : ℝ)
    (ds : List (Move ℝ)) : Prop where
  four_le : 4 ≤ ds.length
  length_le : (ds.length : ℝ) ≤ a.sweep / step + 1
  straight : ∀ e ∈ ds, e.kind = .linear ∧ e.i = none ∧ e.j = none ∧ e.feed = some feed
  goesTo : ∀ n e, ds[n]? = some e → n + 1 < ds.length →
    e.GoesTo (st.point (a.start.turned a.centerPoint a.clockwise ((n + 1 : ℕ) * step)))
  last_goesTo : ∀ e, ds.getLast? = some e → e.GoesTo (st.point a.finish)
  le_lastStep : 0.01 * step ≤ a.sweep - (ds.length - 1 : ℕ) * step
  lastStep_lt : a.sweep - (ds.length - 1 : ℕ) * step < 1.01 * step
  level : d.ramps = false → ∀ e ∈ ds, e.z = some d.final
  /-- Along a ramp each move ends further on the way from `z` to `z + plunge`. -/
  ramp : ∀ z plunge, d = .ramp z plunge → plunge ≠ 0 → ∃ zs : List ℝ,
    ds.map Move.z = zs.map some ∧ (z :: zs).Pairwise (fun u v => 0 < (v - u) * plunge) ∧
      zs.getLast? = some (z + plunge)

namespace Sampler

/-- The step is the one asked for, but no more than a quarter of the angle. -/
theorem stepFor_eq (sweep arcStep : ℝ) :
    stepFor sweep arcStep =
      if 0 < arcStep then Min.min arcStep (sweep / 4) else sweep / 4 := by
  have hquarter : (0.25 : ℝ) * sweep = sweep / 4 := by ring
  unfold stepFor
  rw [real_zero]
  show (if 0 < arcStep then Min.min arcStep ((0.25 : ℝ) * sweep) else (0.25 : ℝ) * sweep) = _
  rw [hquarter]

theorem four_mul_stepFor_le {sweep arcStep : ℝ} : 4 * stepFor sweep arcStep ≤ sweep := by
  rw [stepFor_eq]
  split
  · linarith [min_le_right arcStep (sweep / 4)]
  · linarith

/-- At most `limit` of the moves of a sampler are the first `limit` of them. -/
theorem toList_take {s : Sampler ℝ} (hs : s.degenerate = false) {n : ℕ}
    (hmore : ∀ i < n, snapFactor * s.step ≤ s.sweep - i * s.step)
    (hlast : s.sweep - n * s.step < snapFactor * s.step) (limit : ℕ) :
    (s.take limit).toList =
      ((List.range n).map (fun i => s.segment ((i + 1 : ℕ) * s.step)) ++
        [s.lastMove]).take limit := by
  have hbegin (i : ℕ) : s.sweep - (0 + i * s.step) = s.sweep - i * s.step := by
    rw [zero_add]
  have hmoves := movesFrom_eq_take (fun i hi => (hmore i hi).trans_eq (hbegin i).symm)
    ((hbegin n).trans_lt hlast) limit
  have htake : s.take limit = (s.movesFrom limit 0).toArray := by
    unfold take fold
    rw [hs, if_neg Bool.false_ne_true, foldFrom_eq, real_zero]
    simp
  rw [htake, hmoves]
  simp only [zero_add]

end Sampler

namespace Arc

variable {a : Arc ℝ}

/-- The depths along a ramp come closer to its end with every move. -/
theorem ramp_depths {z plunge : ℝ} (hplunge : plunge ≠ 0) {sweep : ℝ} (hsweep : 0 < sweep)
    {angles : List ℝ} (hangles : (0 :: (angles ++ [sweep])).IsChain (· < ·)) :
    (z :: (angles ++ [sweep]).map fun x => z + plunge * (x / sweep)).Pairwise
      (fun u v => 0 < (v - u) * plunge) := by
  have hzero : z = z + plunge * (0 / sweep) := by ring
  have hcons : z :: (angles ++ [sweep]).map (fun x => z + plunge * (x / sweep)) =
      (0 :: (angles ++ [sweep])).map fun x => z + plunge * (x / sweep) := by
    rw [List.map_cons, ← hzero]
  rw [hcons, List.pairwise_map]
  refine (List.isChain_iff_pairwise.mp hangles).imp fun {x y} hxy => ?_
  have hsame : (z + plunge * (y / sweep) - (z + plunge * (x / sweep))) * plunge =
      plunge ^ 2 * ((y - x) / sweep) := by ring
  rw [hsame]
  exact mul_pos (by positivity) (div_pos (sub_pos.mpr hxy) hsweep)

/-- **The segments of an arc follow it step by step.** -/
theorem sampledBy_of_count (h : ¬a.Degenerate) (st : Stretch ℝ) (d : Depth ℝ) (arcStep feed : ℝ)
    {n : ℕ}
    (hlast : a.sweep - n * Sampler.stepFor a.sweep arcStep <
      Sampler.snapFactor * Sampler.stepFor a.sweep arcStep)
    (hmore : ∀ i < n, Sampler.snapFactor * Sampler.stepFor a.sweep arcStep ≤
      a.sweep - i * Sampler.stepFor a.sweep arcStep) :
    a.SampledBy st d (Sampler.stepFor a.sweep arcStep) feed
      ((List.range n).map (fun i => (Sampler.ofArc a st d arcStep feed).segment
          ((i + 1 : ℕ) * Sampler.stepFor a.sweep arcStep)) ++
        [(Sampler.ofArc a st d arcStep feed).lastMove]) := by
  have hsweep := sweep_pos h
  have hstep : 0 < Sampler.stepFor a.sweep arcStep := Sampler.stepFor_pos hsweep
  have hfour : 4 * Sampler.stepFor a.sweep arcStep ≤ a.sweep := Sampler.four_mul_stepFor_le
  have hangles := Sampler.angles_isChain (s := Sampler.ofArc a st d arcStep feed) hsweep hstep hmore
  have hsnap : (Sampler.snapFactor : ℝ) = 1.01 := rfl
  set step := Sampler.stepFor a.sweep arcStep
  set s := Sampler.ofArc a st d arcStep feed with hs
  rw [hsnap] at hlast
  have hthree : 3 ≤ n := by
    by_contra hless
    have hle : (n : ℝ) ≤ 2 := by exact_mod_cast (by omega : n ≤ 2)
    nlinarith
  -- the segment before the last one leaves more than a step
  have hleft : 0.01 * step ≤ a.sweep - n * step := by
    have hbefore := hmore (n - 1) (by omega)
    rw [hsnap, Nat.cast_sub (by omega), Nat.cast_one] at hbefore
    linarith
  have hlength : ((List.range n).map (fun i => s.segment ((i + 1 : ℕ) * step)) ++
      [s.lastMove]).length = n + 1 := by simp
  have hmem {e : Move ℝ} (he : e ∈ (List.range n).map (fun i => s.segment ((i + 1 : ℕ) * step)) ++
      [s.lastMove]) : ∃ p x, e = s.moveTo p x := by
    rcases List.mem_append.mp he with he | he
    · obtain ⟨i, -, rfl⟩ := List.mem_map.mp he
      exact ⟨_, _, rfl⟩
    · rw [List.mem_singleton.mp he]
      exact ⟨_, _, rfl⟩
  refine
    { four_le := ?_, length_le := ?_, straight := ?_, goesTo := ?_, last_goesTo := ?_,
      le_lastStep := ?_, lastStep_lt := ?_, level := ?_, ramp := ?_ }
  · rw [hlength]
    omega
  · rw [hlength, Nat.cast_succ, add_le_add_iff_right, le_div_iff₀ hstep]
    linarith
  · intro e he
    obtain ⟨p, x, rfl⟩ := hmem he
    exact ⟨rfl, rfl, rfl, rfl⟩
  · intro i e he hi
    rw [hlength] at hi
    have hsegment : s.segment ((i + 1 : ℕ) * step) = e := by
      rw [List.getElem?_append_left (by simpa using hi)] at he
      simpa [show i < n by omega] using he
    rw [← hsegment, ← Sampler.point_ofArc a st d arcStep feed]
    exact ⟨rfl, rfl⟩
  · intro e he
    rw [List.getLast?_concat] at he
    obtain rfl := Option.some.inj he
    exact ⟨rfl, rfl⟩
  · rwa [hlength, Nat.add_sub_cancel]
  · rwa [hlength, Nat.add_sub_cancel]
  · intro hlevel e he
    obtain ⟨p, x, rfl⟩ := hmem he
    exact congrArg some (Depth.along_of_level hlevel _)
  · rintro z plunge rfl hplunge
    refine ⟨_, ?_, ramp_depths hplunge hsweep hangles, ?_⟩
    · simp only [List.map_append, List.map_map, List.map_cons, List.map_nil]
      congr 1
      · refine List.map_congr_left fun i _ => ?_
        exact congrArg some (Depth.along_ramp hplunge _)
      · exact congrArg (fun u => [some u]) (Depth.along_ramp hplunge _)
    · rw [List.map_append, List.map_cons, List.map_nil, List.getLast?_concat]
      have hwhole : z + plunge * (a.sweep / a.sweep) = z + plunge := by
        rw [div_self hsweep.ne', mul_one]
      exact congrArg some hwhole

/-- The segments of an arc that is not degenerate follow it step by step. -/
theorem sampledBy_moves (h : ¬a.Degenerate) (st : Stretch ℝ) (d : Depth ℝ) (arcStep feed : ℝ) :
    a.SampledBy st d (Sampler.stepFor a.sweep arcStep) feed
        (Sampler.ofArc a st d arcStep feed).moves ∧
      ∀ limit, ((Sampler.ofArc a st d arcStep feed).take limit).toList =
        (Sampler.ofArc a st d arcStep feed).moves.take limit := by
  have hstep : 0 < Sampler.stepFor a.sweep arcStep := Sampler.stepFor_pos (sweep_pos h)
  have hfull : (Sampler.ofArc a st d arcStep feed).degenerate = false := decide_eq_false h
  obtain ⟨n, hlast, hmore⟩ := Sampler.exists_count (s := Sampler.ofArc a st d arcStep feed) hstep
  rw [Sampler.moves_eq hfull hstep hlast hmore]
  exact ⟨sampledBy_of_count h st d arcStep feed hlast hmore,
    Sampler.toList_take hfull hmore hlast⟩

end Arc

/-! ## What a sampler yields -/

namespace Sampler

/-- **What a sampler yields.** An arc that is not degenerate goes through some angle, once round at
most: once round if it is closed, and otherwise the angle from its start to its end in its sense. A
finite run of moves follows it, with a step of no more than a quarter of that angle. The sampler
yields this run, as far as it is asked to, and cutting the arc emits all of it. -/
theorem samples_arc {a : Arc ℝ} (h : ¬a.Degenerate) (st : Stretch ℝ) (d : Depth ℝ)
    (arcStep feed : ℝ) :
    (0 < a.sweep ∧ a.sweep ≤ 2 * Real.pi) ∧
      (a.Closed → a.sweep = 2 * Real.pi) ∧
      (¬a.Closed → a.TurnsTo a.sweep ∧
        (a.finish ≠ a.centerPoint → ∀ angle, a.TurnsTo angle → angle = a.sweep)) ∧
      ∃ ds : List (Move ℝ),
        (∀ limit, ((ofArc a st d arcStep feed).take limit).toList = ds.take limit) ∧
          (∀ m, (ofArc a st d arcStep feed).cut m = m.emitAll ds) ∧
          a.SampledBy st d
            (if 0 < arcStep then Min.min arcStep (a.sweep / 4) else a.sweep / 4) feed ds := by
  obtain ⟨hsampled, htake⟩ := Arc.sampledBy_moves h st d arcStep feed
  refine ⟨⟨Arc.sweep_pos h, a.sweep_le⟩, a.sweep_of_closed, ?_, _, htake,
    (ofArc a st d arcStep feed).cut_eq, ?_⟩
  · intro hopen
    have hsweep := Arc.turnsTo_sweep h hopen
    exact ⟨hsweep, fun hfar angle hangle => hangle.unique (Arc.radius_pos h) hfar hsweep⟩
  · rwa [← stepFor_eq]

/-- Half a circle, going down, in steps of 0.7: four of these and one a little shorter. -/
theorem mirroredHalf_samples :
    ¬ArcPlan.mirroredHalf.outline.Degenerate ∧
      ArcPlan.mirroredHalf.outline.TurnsTo Real.pi ∧
      ∃ ds : List (Move ℝ),
        (∀ limit, ((ofArc ArcPlan.mirroredHalf.outline ArcPlan.mirroredHalf.stretch (.ramp 0 (-1))
          0.7 60).take limit).toList = ds.take limit) ∧
          ArcPlan.mirroredHalf.outline.SampledBy ArcPlan.mirroredHalf.stretch (.ramp 0 (-1)) 0.7 60
            ds ∧
          ds.length = 5 := by
  have hopen : ¬ArcPlan.mirroredHalf.outline.Closed := by
    rintro ⟨hx, -⟩
    have hfar : |(0 : ℝ) - 2| ≤ 1e-6 := hx
    norm_num at hfar
  obtain ⟨-, -, hsweep, ds, htake, -, hsampled⟩ :=
    samples_arc ArcPlan.mirroredHalf_not_degenerate ArcPlan.mirroredHalf.stretch (.ramp 0 (-1)) 0.7
      60
  have hstep : (if (0 : ℝ) < 0.7 then Min.min 0.7 (Real.pi / 4) else Real.pi / 4) = 0.7 := by
    rw [if_pos (by norm_num), min_eq_left (by linarith [Real.pi_gt_three])]
  obtain ⟨hreaches, -⟩ := hsweep hopen
  rw [ArcPlan.mirroredHalf_sweep, hstep] at hsampled
  rw [ArcPlan.mirroredHalf_sweep] at hreaches
  refine ⟨ArcPlan.mirroredHalf_not_degenerate, hreaches, ds, htake, hsampled, ?_⟩
  have hlow := hsampled.le_lastStep
  have hhigh := hsampled.lastStep_lt
  rw [ArcPlan.mirroredHalf_sweep] at hlow hhigh
  have hmore : (3 : ℝ) < (ds.length - 1 : ℕ) := by linarith [Real.pi_gt_three]
  have hless : ((ds.length - 1 : ℕ) : ℝ) < 5 := by linarith [Real.pi_lt_d2]
  have hmore : 3 < ds.length - 1 := by exact_mod_cast hmore
  have hless : ds.length - 1 < 5 := by exact_mod_cast hless
  omega

end Sampler

end Toolpath
