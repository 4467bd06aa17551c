import Toolpath.Proofs.Arc.Passes
import Toolpath.Proofs.Verdict

/-!
# Something to cut

A checked order has something to cut in every pass, in exact arithmetic: its center is away from its
start, so an arc that goes all the way round is never too small, and the outermost ring of a pocket
goes all the way round. Only an open arc that is cut as segments can be too small.

* `ArcOrder.of_check` — what the check of an order promises
* `ArcPlan.follow_ne_nil` — following an arc that is not degenerate cuts something
* `ArcPlan.rings_eq_cons` — a pocket has an outermost ring, at its start
* `ArcPlan.levelCuts_ne_nil` — so a level pass cuts something
-/

namespace Toolpath

open Scalar RealScalar

/-! ## What a checked order has -/

section

variable {α : Type} [Scalar α]

theorem passCount_step_pos {span step : α} {n : Nat} (h : passCount span step = .ok n) :
    0 < step := by
  by_cases hstep : 0 < step
  · exact hstep
  · rw [passCount, if_neg hstep] at h
    cases h

theorem ArcOrder.of_validate {o : ArcOrder α} {u : Unit} (h : o.validate = .ok u) :
    o.passes.repetitions ≠ 0 ∧ ¬o.center.Negligible := by
  unfold validate at h
  obtain ⟨_, -, h⟩ := exists_of_bind_eq_ok h
  obtain ⟨_, -, h⟩ := exists_of_bind_eq_ok h
  obtain ⟨_, -, h⟩ := exists_of_bind_eq_ok h
  obtain ⟨_, -, h⟩ := exists_of_bind_eq_ok h
  obtain ⟨_, -, h⟩ := exists_of_bind_eq_ok h
  by_cases hr : o.passes.repetitions = 0
  · rw [if_pos hr] at h
    cases h
  · rw [if_neg hr] at h
    obtain ⟨_, -, h⟩ := exists_of_bind_eq_ok h
    obtain ⟨_, -, h⟩ := exists_of_bind_eq_ok h
    by_cases hn : o.center.Negligible
    · rw [if_pos hn] at h
      cases h
    · exact ⟨hr, hn⟩

/-- A checked order is cut at least once, around a center away from its start; the rings of a pocket
lie apart. -/
theorem ArcOrder.of_check {o : ArcOrder α} {tool : Tool α} (h : o.check tool = .ok ()) :
    o.passes.repetitions ≠ 0 ∧ ¬o.center.Negligible ∧
      (o.cut = .pocket → 0 < o.ringStep tool) := by
  unfold check at h
  obtain ⟨_, hv, h⟩ := exists_of_bind_eq_ok h
  obtain ⟨hr, hn⟩ := of_validate hv
  refine ⟨hr, hn, fun hcut => ?_⟩
  rw [hcut] at h
  obtain ⟨_, hp, -⟩ := exists_of_bind_eq_ok h
  exact passCount_step_pos hp

end

/-- In exact arithmetic every number is finite. -/
theorem ArcOrder.validate_real (o : ArcOrder ℝ) : o.validate =
    if o.passes.repetitions = 0 then .error .noRepetitions
    else if o.scale.x = 0 then .error (.zeroProportion "prop_x")
    else if o.scale.y = 0 then .error (.zeroProportion "prop_y")
    else if o.center.Negligible then .error .centerOnStart else .ok () := by
  have hprop (parameter : String) (x : ℝ) : requireProportion parameter x =
      if x = 0 then .error (.zeroProportion parameter) else .ok () := by
    show (if (x == (@OfNat.ofNat ℝ 0 (instOfNatScalar 0))) = true then _ else _) = _
    simp only [beq_real, real_zero]
  unfold validate
  rw [hprop, hprop]
  simp only [requireFinite_real]
  split_ifs <;> rfl

theorem ArcOrder.validate_ok_iff {o : ArcOrder ℝ} :
    o.validate = .ok () ↔
      o.passes.repetitions ≠ 0 ∧ o.scale.x ≠ 0 ∧ o.scale.y ≠ 0 ∧ ¬o.center.Negligible := by
  rw [validate_real]
  split_ifs <;> simp [*]

/-- In exact arithmetic an order that is no pocket needs nothing else than proportions besides. -/
theorem ArcOrder.check_of_ne_pocket {o : ArcOrder ℝ} (hcut : o.cut ≠ .pocket)
    (hr : o.passes.repetitions ≠ 0) (hx : o.scale.x ≠ 0) (hy : o.scale.y ≠ 0)
    (hn : ¬o.center.Negligible) (tool : Tool ℝ) : o.check tool = .ok () := by
  unfold check
  rw [validate_ok_iff.mpr ⟨hr, hx, hy, hn⟩]
  cases hc : o.cut with
  | pocket => exact absurd hc hcut
  | profile => rfl
  | spiral => rfl
  | spiralWithBottom => rfl

theorem Offset.abs_le_length (v : Offset ℝ) : |v.x| ≤ v.length ∧ |v.y| ≤ v.length :=
  ⟨Real.abs_le_sqrt (by linarith [sq_nonneg v.y]), Real.abs_le_sqrt (by linarith [sq_nonneg v.x])⟩

namespace ArcPlan

variable (p : ArcPlan ℝ)

/-! ## Something to cut -/

theorem segments_eq_append {a : Arc ℝ} (h : ¬a.Degenerate) (st : Stretch ℝ) (d : Depth ℝ)
    (arcStep feed : ℝ) :
    ∃ angles : List ℝ,
      (Sampler.ofArc a st d arcStep feed).moves =
          angles.map (Sampler.ofArc a st d arcStep feed).segment ++
            [(Sampler.ofArc a st d arcStep feed).lastMove] ∧
        (0 :: (angles ++ [a.sweep])).IsChain (· < ·) :=
  Sampler.moves_eq_append (decide_eq_false h) (Arc.sweep_pos h)
    (Sampler.stepFor_pos (Arc.sweep_pos h))

/-- Following an arc cuts something. -/
theorem follow_ne_nil {a : Arc ℝ} (h : p.segmented = true → ¬a.Degenerate) (d : Depth ℝ)
    (m : Machine ℝ) : (p.follow a d m).since m ≠ [] := by
  rw [follow_eq, Machine.since_emitAll, followMoves]
  by_cases hs : p.segmented = true
  · obtain ⟨angles, hangles, -⟩ :=
      segments_eq_append (h hs) p.stretch d p.tool.arcStep m.feeds.xyPerMinute
    rw [if_pos hs, hangles]
    exact List.append_ne_nil_of_right_ne_nil _ (List.cons_ne_nil _ _)
  · rw [if_neg hs]
    exact List.cons_ne_nil _ _

/-- A center that counts lies further away than the tolerance. -/
theorem tolerance_lt_length {v : Offset ℝ} (h : ¬v.Negligible) : tolerance < v.length := by
  by_contra hle
  obtain ⟨hx, hy⟩ := v.abs_le_length
  exact h ⟨hx.trans (not_lt.mp hle), hy.trans (not_lt.mp hle)⟩

theorem ringBound_pos {radius step : ℝ} (hradius : 0 < radius) (hstep : 0 < step) :
    0 < Pocket.ringBound radius step := by
  have hceil : 1 ≤ toNat (ceil (radius / step)) := by
    show 1 ≤ ⌊((⌈radius / step⌉ : ℤ) : ℝ)⌋₊
    apply Nat.le_floor
    exact_mod_cast Int.one_le_ceil_iff.mpr (div_pos hradius hstep)
  unfold Pocket.ringBound
  rw [real_zero, if_pos ⟨hstep, hradius⟩]
  exact lt_min hceil (by decide)

/-- The outermost ring of a pocket starts where the pocket does. -/
theorem rings_eq_cons (hr : tolerance < p.order.center.length)
    (hs : 0 < p.order.ringStep p.tool) : ∃ rest, p.rings = ⟨0, 0⟩ :: rest := by
  have hradius : 0 < p.order.center.length := tolerance_pos.trans hr
  obtain ⟨n, hn⟩ : ∃ n, Nat.min (maxPasses + 1)
      (Pocket.ringBound p.order.center.length (p.order.ringStep p.tool)) = n + 1 :=
    Nat.exists_eq_succ_of_ne_zero
      (lt_min (Nat.succ_pos maxPasses) (ringBound_pos hradius hs)).ne'
  have hzero (v : Offset ℝ) : v.scale (Scalar.ofNat 0) (Scalar.ofNat 0) = ⟨0, 0⟩ := by
    simp [Offset.scale]
  have hlength : (⟨0, 0⟩ : Offset ℝ).length = 0 := by
    show √((0 : ℝ) ^ 2 + 0 ^ 2) = 0
    norm_num
  unfold rings Pocket.rings
  dsimp only
  rw [hn, List.range_succ_eq_map, List.map_cons, hzero, List.takeWhile_cons_of_pos]
  · exact ⟨_, rfl⟩
  · rw [hlength]
    exact decide_eq_true hradius

/-- An arc that goes all the way round is degenerate only if it has no radius. -/
theorem not_degenerate_of_closed {a : Arc ℝ} (hclosed : a.Closed) (hr : tolerance < a.radius) :
    ¬a.Degenerate := by
  rintro (hradius | hsweep)
  · exact absurd hr (not_lt.mpr hradius)
  · rw [Arc.sweep, if_pos hclosed] at hsweep
    have hround : (2 : ℝ) * Real.pi < 1e-5 := hsweep
    linarith [Real.two_le_pi]

theorem closed_ringArc (v : Offset ℝ) : (p.ringArc v).Closed := near_refl (p.ringStart v)

theorem outermost_not_degenerate (hr : tolerance < p.order.center.length) :
    ¬(p.ringArc ⟨0, 0⟩).Degenerate := by
  refine not_degenerate_of_closed (p.closed_ringArc ⟨0, 0⟩) ?_
  have hsame : p.order.center.sub ⟨0, 0⟩ = p.order.center := by
    simp [Offset.sub]
  rwa [Arc.radius, ringArc, hsame]

/-- A level pass of a checked order has something to cut. -/
theorem levelCuts_ne_nil {p : ArcPlan ℝ} (hc : p.order.check p.tool = .ok ())
    (hd : p.segmented = true → p.order.cut ≠ .pocket → ¬p.outline.Degenerate) (z : ℝ)
    (m : Machine ℝ) : (p.levelCuts z m).since m ≠ [] := by
  obtain ⟨-, hcenter, hstep⟩ := ArcOrder.of_check hc
  unfold levelCuts
  by_cases hcut : p.order.cut = .pocket
  · -- the outermost ring is enough, and the rings inside it may be too small to cut
    have hlong := tolerance_lt_length hcenter
    obtain ⟨rest, hrings⟩ := p.rings_eq_cons hlong (by rw [← real_zero]; exact hstep hcut)
    have hring : (p.ring z m ⟨0, 0⟩).since m ≠ [] :=
      p.follow_ne_nil (fun _ => p.outermost_not_degenerate hlong) _ m
    have hnest : Machine.Leads (fun _ d => d.CutsAt z) (p.ring z m ⟨0, 0⟩)
        (p.nest z m (⟨0, 0⟩ :: rest)) :=
      Machine.Leads.foldl (fun m w => (Machine.Leads.emit ⟨rfl, Or.inl rfl⟩).trans
        (p.ring_level z (m.lineTo _) w)) rest _
    rw [if_pos hcut, hrings, (p.ring_level z m ⟨0, 0⟩).since_trans hnest]
    exact List.append_ne_nil_of_left_ne_nil hring _
  · rw [if_neg hcut]
    exact p.follow_ne_nil (fun hs => hd hs hcut) _ m

end ArcPlan

end Toolpath
