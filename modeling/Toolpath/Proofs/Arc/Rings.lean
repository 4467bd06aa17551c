import Mathlib.Algebra.Order.ToIntervalMod
import Mathlib.Data.List.TakeWhile
import Toolpath.Proofs.Path
import Toolpath.Proofs.Arc.Scaling

/-!
# The rings of a pocket

A circular pocket that is not stretched is cut along circles around one center, in exact arithmetic.
Each of them is smaller than the one around it by one step, and there are as many as it takes for
the steps to reach the center. A ring goes all the way round, so it passes over every point at its
distance from the center, and over no other.

* `Pocket.rings_eq` — which rings there are
* `Point.onArc_round` — what a circle passes over
* `ArcPlan.Plain.passesOver_passMoves_iff` — what a pass over a pocket goes round
-/

namespace Toolpath

open Scalar RealScalar

/-! ## Which rings there are -/

namespace Offset

theorem length_scale (v : Offset ℝ) (r : ℝ) : (v.scale r r).length = |r| * v.length := by
  have hsq : (v.x * r) ^ 2 + (v.y * r) ^ 2 = r ^ 2 * (v.x ^ 2 + v.y ^ 2) := by ring
  show √((v.x * r) ^ 2 + (v.y * r) ^ 2) = |r| * √(v.x ^ 2 + v.y ^ 2)
  rw [hsq, Real.sqrt_mul (sq_nonneg r), Real.sqrt_sq_eq_abs]

end Offset

namespace Pocket

/-- As many steps as it takes to cover the radius. -/
theorem ringBound_eq {radius step : ℝ} {n : ℕ} (hradius : 0 < radius)
    (hn : passCount radius step = .ok n) :
    Nat.min (maxPasses + 1) (ringBound radius step) = ⌈radius / step⌉₊ := by
  obtain ⟨hstep, -, hlt, hfew⟩ := of_passCount hn
  rw [abs_of_pos hradius] at hlt
  have hceil : toNat (ceil (radius / step)) = ⌈radius / step⌉₊ := by
    show ⌊((⌈radius / step⌉ : ℤ) : ℝ)⌋₊ = ⌈radius / step⌉₊
    rw [← natCast_ceil_eq_intCast_ceil (div_pos hradius hstep).le, Nat.floor_natCast]
  have hle : ⌈radius / step⌉₊ ≤ maxPasses + 1 := by
    refine (Nat.ceil_le.mpr ?_).trans (Nat.succ_le_succ hfew)
    rw [Nat.cast_succ]
    exact ((div_lt_iff₀ hstep).mpr hlt).le
  have hword : maxPasses + 1 ≤ UInt32.size - 1 := by decide
  unfold ringBound
  rw [real_zero, if_pos ⟨hstep, hradius⟩, hceil]
  rw [show Nat.min ⌈radius / step⌉₊ (UInt32.size - 1) = ⌈radius / step⌉₊ from
    min_eq_left (hle.trans hword)]
  exact min_eq_right hle

/-- The start of a ring, seen from the start of the outermost one: a number of steps toward the
center. -/
noncomputable def ringOffset (center : Offset ℝ) (step : ℝ) (j : ℕ) : Offset ℝ :=
  center.scale (j * step / center.length) (j * step / center.length)

/-- **The starts of the rings:** at all numbers of steps that do not reach the center. -/
theorem rings_eq {center : Offset ℝ} {step : ℝ} {n : ℕ} (hcenter : 0 < center.length)
    (hn : passCount center.length step = .ok n) :
    rings (maxPasses + 1) center step =
      (List.range ⌈center.length / step⌉₊).map (ringOffset center step) := by
  have hstep : 0 < step := (of_passCount hn).1
  have hring (j : ℕ) : (Offset.polar step (atan2 center.y center.x)).scale (Scalar.ofNat j)
      (Scalar.ofNat j) = ringOffset center step j := by
    rw [Offset.polar_atan2 hcenter.ne', ofNat_real]
    simp only [ringOffset, Offset.scale]
    congr 1 <;> ring
  unfold rings
  dsimp only
  rw [ringBound_eq hcenter hn, funext hring, List.takeWhile_eq_self_iff]
  intro v hv
  obtain ⟨j, hj, rfl⟩ := List.mem_map.mp hv
  have hlt : j * step < center.length :=
    (lt_div_iff₀ hstep).mp (Nat.lt_ceil.mp (List.mem_range.mp hj))
  have hnonneg : 0 ≤ j * step / center.length := by positivity
  rw [decide_eq_true_eq, ringOffset, Offset.length_scale, abs_of_nonneg hnonneg,
    div_mul_cancel₀ _ hcenter.ne']
  exact hlt

end Pocket

/-! ## What a circle passes over -/

namespace Offset

/-- An offset can be turned to any other of its length, by less than a whole turn. -/
theorem exists_turned_eq {v w : Offset ℝ} (h : w.length = v.length) (clockwise : Bool) :
    ∃ angle, 0 ≤ angle ∧ angle < 2 * Real.pi ∧ w = v.turned clockwise angle := by
  have hv : Bearing.offset v.length (Bearing.ofOffset v) = v := Bearing.offset_ofOffset v
  have hw : Bearing.offset v.length (Bearing.ofOffset w) = w := by
    rw [← h]
    exact Bearing.offset_ofOffset w
  have hturn (x : ℝ) (n : ℤ) : Bearing.offset v.length (x + n * (2 * Real.pi)) =
      Bearing.offset v.length x := by
    show (⟨_ * Real.sin _, _ * Real.cos _⟩ : Offset ℝ) = ⟨_ * Real.sin _, _ * Real.cos _⟩
    rw [Real.sin_add_int_mul_two_pi, Real.cos_add_int_mul_two_pi]
  -- the difference of the bearings, less whole turns
  have hless (far : ℝ) : ∃ (angle : ℝ) (n : ℤ), 0 ≤ angle ∧ angle < 2 * Real.pi ∧
      far = angle + n * (2 * Real.pi) := by
    obtain ⟨hpos, hlt⟩ := toIcoMod_mem_Ico' Real.two_pi_pos far
    refine ⟨_, toIcoDiv Real.two_pi_pos 0 far, hpos, hlt, ?_⟩
    rw [← zsmul_eq_mul]
    exact (toIcoMod_add_toIcoDiv_zsmul Real.two_pi_pos 0 far).symm
  cases clockwise with
  | true =>
    obtain ⟨angle, n, hpos, hlt, hfar⟩ := hless (Bearing.ofOffset w - Bearing.ofOffset v)
    refine ⟨angle, hpos, hlt, ?_⟩
    rw [← hv, Bearing.offset_turned, if_pos rfl, ← hturn _ n, ← hw]
    congr 1
    linarith
  | false =>
    obtain ⟨angle, n, hpos, hlt, hfar⟩ := hless (Bearing.ofOffset v - Bearing.ofOffset w)
    refine ⟨angle, hpos, hlt, ?_⟩
    rw [← hv, Bearing.offset_turned, if_neg Bool.false_ne_true, ← hturn _ (-n), ← hw]
    congr 1
    push_cast
    linarith

/-- Turned by less than a whole turn, an offset points somewhere else. -/
theorem turned_scale_ne {v : Offset ℝ} (hv : 0 < v.length) (clockwise : Bool) {angle : ℝ}
    (hpos : 0 < angle) (hlt : angle < 2 * Real.pi) {r : ℝ} (hr : 0 ≤ r) :
    v ≠ (v.turned clockwise angle).scale r r := by
  intro h
  have hone : r = 1 := by
    have hlength := congrArg length h
    rw [length_scale, length_turned, abs_of_nonneg hr] at hlength
    nlinarith
  have hx := congrArg Offset.x h
  have hy := congrArg Offset.y h
  have hsq : 0 < v.x ^ 2 + v.y ^ 2 := Real.sqrt_pos.mp hv
  have hdot : (v.x ^ 2 + v.y ^ 2) * (Real.cos angle - 1) = 0 := by
    cases clockwise <;> simp [turned, scale, hone] at hx hy <;>
      linear_combination -v.x * hx - v.y * hy
  have hcos : Real.cos angle = 1 :=
    sub_eq_zero.mp ((mul_eq_zero.mp hdot).resolve_left hsq.ne')
  exact hpos.ne' ((Real.cos_eq_one_iff_of_lt_of_lt (by linarith) hlt).mp hcos)

end Offset

/-- **A whole circle passes over the points at its distance from the center.** -/
theorem Point.onArc_round {start center : Point ℝ} (hr : 0 < (center.wayTo start).length)
    (clockwise : Bool) (x : Point ℝ) :
    start.OnArc start center clockwise x ↔
      (center.wayTo x).length = (center.wayTo start).length := by
  constructor
  · rintro ⟨angle, -, rfl, -⟩
    rw [wayTo_turned, Offset.length_turned]
  · intro h
    obtain ⟨angle, hpos, hlt, hway⟩ := Offset.exists_turned_eq h clockwise
    refine ⟨angle, hpos, ?_, ?_⟩
    · unfold turned
      rw [← hway]
      simp [shift, wayTo]
    · rintro a ha hbefore ⟨r, hnonneg, htowards⟩
      rw [wayTo_turned] at htowards
      exact Offset.turned_scale_ne hr clockwise ha (hbefore.trans hlt) hnonneg htowards

/-! ## What a pass over a pocket goes round -/

namespace ArcPlan

/-- A plan of a pocket that is not stretched and is cut as circular moves. -/
structure Plain (p : ArcPlan ℝ) : Prop where
  cut_eq : p.order.cut = .pocket
  scale_eq : p.order.scale = ⟨1, 1⟩
  direct : p.segmented = false

/-- The center of the rings. -/
noncomputable def middle (p : ArcPlan ℝ) : Point ℝ := p.origin.shift p.order.center

/-- From the center, the start of a ring lies in the direction of the origin. -/
theorem wayTo_ringStart (p : ArcPlan ℝ) (step : ℝ) (j : ℕ) :
    p.middle.wayTo (p.ringStart (Pocket.ringOffset p.order.center step j)) =
      p.order.center.scale (j * step / p.order.center.length - 1)
        (j * step / p.order.center.length - 1) := by
  simp only [middle, ringStart, Pocket.ringOffset, Point.wayTo, Point.shift, Offset.scale]
  congr 1 <;> ring

variable {p : ArcPlan ℝ} {x : Point ℝ}

namespace Plain

variable (h : p.Plain)

include h

theorem stretch_eq : p.stretch = .identity p.origin := by
  unfold stretch Stretch.identity
  rw [h.scale_eq, real_one]

/-- **A ring goes round the center**, if it begins at its start. -/
theorem passesOver_ring (z : ℝ) {m : Machine ℝ} {v : Offset ℝ}
    (hp : m.position.point = p.ringStart v) :
    PassesOver (fun d => d.kind.isArc) m.position ((p.ring z m v).since m) x ↔
      (p.ringStart v).OnArc (p.ringStart v) p.middle p.clockwise x := by
  have hring : p.ring z m v =
      m.emit (.arc p.clockwise (p.ringStart v) (p.order.center.sub v) m.feeds.xyPerMinute) := by
    unfold ring follow circularMove
    dsimp only
    rw [h.direct, h.stretch_eq, Stretch.point_identity, Stretch.offset_identity]
    rfl
  have hmiddle : (p.ringStart v).shift (p.order.center.sub v) = p.middle := by
    simp only [ringStart, middle, Point.shift, Offset.sub]
    congr 1 <;> ring
  have hsince (d : Move ℝ) : (m.emit d).since m = [d] := Machine.since_emitAll m [d]
  rw [hring, hsince, passesOver_arc, hp, hmiddle]

/-- The rings of a pocket go round the center, each from its start. -/
theorem passesOver_nest (z : ℝ) {m : Machine ℝ} {v : Offset ℝ} {rest : List (Offset ℝ)}
    (hp : m.position.point = p.ringStart v) :
    PassesOver (fun d => d.kind.isArc) m.position ((p.nest z m (v :: rest)).since m) x ↔
      ∃ w ∈ v :: rest, (p.ringStart w).OnArc (p.ringStart w) p.middle p.clockwise x := by
  have hline (m : Machine ℝ) (w : Offset ℝ) : Machine.Leads (fun _ d => d.kind.isArc = false) m
      (m.lineTo (p.stretch.point (p.ringStart w))) := Machine.Leads.emit rfl
  have hring (m : Machine ℝ) (w : Offset ℝ) : Machine.Emits m (p.ring z m w) :=
    (p.ring_level z m w).emits
  have hnext (m : Machine ℝ) (w : Offset ℝ) :
      Machine.Emits m (p.ring z (m.lineTo (p.stretch.point (p.ringStart w))) w) :=
    (hline m w).emits.trans (hring _ w)
  have hrest (m : Machine ℝ) (rest : List (Offset ℝ)) :
      PassesOver (fun d => d.kind.isArc) m.position ((rest.foldl
          (fun m w => p.ring z (m.lineTo (p.stretch.point (p.ringStart w))) w) m).since m) x ↔
        ∃ w ∈ rest, (p.ringStart w).OnArc (p.ringStart w) p.middle p.clockwise x := by
    induction rest generalizing m with
    | nil =>
      have hnone : m.since m = [] := Machine.since_emitAll m []
      simp [hnone]
    | cons w rest ih =>
      have hstart :
          (m.lineTo (p.stretch.point (p.ringStart w))).position.point = p.ringStart w := by
        rw [h.stretch_eq, Stretch.point_identity]
        rfl
      rw [List.foldl_cons, (hnext m w).passesOver_trans (Machine.Leads.foldl hnext rest _), ih,
        (hline m w).passesOver_trans (hring _ w), or_iff_right (hline m w).not_passesOver,
        h.passesOver_ring z hstart]
      simp
  have hnest : p.nest z m (v :: rest) = rest.foldl (fun m w =>
    p.ring z (m.lineTo (p.stretch.point (p.ringStart w))) w) (p.ring z m v) := rfl
  rw [hnest, (hring m v).passesOver_trans (Machine.Leads.foldl hnext rest _), hrest,
    h.passesOver_ring z hp]
  simp

/-- A pass goes round what its rings go round. -/
theorem passesOver_passMoves {m : Machine ℝ} {k : ℕ} {rest : List (Offset ℝ)}
    (hrings : p.rings = ⟨0, 0⟩ :: rest) (hm : m.position.point = p.origin) :
    PassesOver (fun d => d.kind.isArc) (p.entering k m).2.position (p.passMoves k m) x ↔
      ∃ w ∈ p.rings, (p.ringStart w).OnArc (p.ringStart w) p.middle p.clockwise x := by
  have hlevel : p.order.cut.isSpiral = false := by
    rw [h.cut_eq]
    rfl
  have hidle {m m' : Machine ℝ} (hm : Machine.Leads (fun _ d => d.Idle) m m') :
      Machine.Leads (fun _ d => d.kind.isArc = false) m m' :=
    hm.mono fun _ _ hd => (Bool.or_eq_false_iff.mp hd).1
  have hsink := hidle (p.idle_sink (p.entering k m).1 (p.entering k m).2)
  have hstart : (p.sink (p.entering k m).1 (p.entering k m).2).2.position.point =
      p.ringStart ⟨0, 0⟩ := by
    rw [(p.lifts_sink _ _).point_eq, p.entering_point_of_pocket h.cut_eq hm]
    simp [ringStart, Point.shift]
  obtain ⟨-, hrest⟩ := p.pass_of_level hlevel (p.entering k m).1 (p.entering k m).2
  rw [levelCuts, if_pos h.cut_eq, hrings] at hrest
  -- a pass goes down, round its rings, and back over the origin
  have hnest := (p.nest_level (p.sink (p.entering k m).1 (p.entering k m).2).1
    (p.sink (p.entering k m).1 (p.entering k m).2).2 (⟨0, 0⟩ :: rest)).emits
  unfold passMoves leaving
  rw [hsink.passesOver_trans (hnest.trans hrest.emits), or_iff_right hsink.not_passesOver,
    hnest.passesOver_trans hrest, or_iff_left (hidle hrest).not_passesOver,
    h.passesOver_nest _ hstart, hrings]

/-- **A pass over a pocket goes round the center at the distances of its rings.** -/
theorem passesOver_passMoves_iff {m : Machine ℝ} {k n : ℕ} (hm : m.position.point = p.origin)
    (hcenter : 0 < p.order.center.length)
    (hn : passCount p.order.center.length (p.order.ringStep p.tool) = .ok n) :
    PassesOver (fun d => d.kind.isArc) (p.entering k m).2.position (p.passMoves k m) x ↔
      ∃ j < ⌈p.order.center.length / p.order.ringStep p.tool⌉₊,
        (p.middle.wayTo x).length = p.order.center.length - j * p.order.ringStep p.tool := by
  have hstep : 0 < p.order.ringStep p.tool := (of_passCount hn).1
  have hrings := Pocket.rings_eq hcenter hn
  obtain ⟨rest, hfirst⟩ : ∃ rest, p.rings = ⟨0, 0⟩ :: rest := by
    obtain ⟨count, hcount⟩ := Nat.exists_eq_succ_of_ne_zero
      (Nat.ceil_pos.mpr (div_pos hcenter hstep)).ne'
    have hzero : Pocket.ringOffset p.order.center (p.order.ringStep p.tool) 0 = ⟨0, 0⟩ := by
      simp [Pocket.ringOffset, Offset.scale]
    rw [hcount, List.range_succ_eq_map, List.map_cons, hzero] at hrings
    exact ⟨_, hrings⟩
  rw [h.passesOver_passMoves hfirst hm]
  have hall : p.rings = _ := hrings
  rw [hall]
  simp only [List.mem_map, List.mem_range, exists_exists_and_eq_and]
  refine exists_congr fun j => and_congr_right fun hj => ?_
  have hlt : j * p.order.ringStep p.tool < p.order.center.length :=
    (lt_div_iff₀ hstep).mp (Nat.lt_ceil.mp hj)
  have hradius : (p.middle.wayTo (p.ringStart
      (Pocket.ringOffset p.order.center (p.order.ringStep p.tool) j))).length =
        p.order.center.length - j * p.order.ringStep p.tool := by
    rw [p.wayTo_ringStart, Offset.length_scale, abs_sub_comm, abs_of_pos]
    · field_simp
    · rw [sub_pos, div_lt_one hcenter]
      exact hlt
  rw [Point.onArc_round (by rw [hradius]; linarith), hradius]

end Plain

end ArcPlan

end Toolpath
