import Toolpath.Proofs.Arc.Rings

/-!
# What a circular pocket clears

The rings of a pocket are one step apart, which is no more than the diameter of the cutter, so
nothing is left between them, in exact arithmetic. Inside the innermost ring nothing is cut. It may
be as large as one step, so the cutter need not reach the center from there.

* `Point.exists_at_distance` — a circle, seen from inside it or from outside
* `ArcPlan.Plain.pass_clears_iff` — when a pass clears a whole disc
* `ArcOrder.clears_disc_iff` — when a pocket does
-/

namespace Toolpath

open Scalar RealScalar

/-! ## How far a point is from a circle -/

theorem Bearing.length_offset (length bearing : ℝ) :
    (Bearing.offset length bearing).length = |length| := by
  have hsq : (length * Real.sin bearing) ^ 2 + (length * Real.cos bearing) ^ 2 = length ^ 2 := by
    linear_combination length ^ 2 * Real.sin_sq_add_cos_sq bearing
  show √((length * Real.sin bearing) ^ 2 + (length * Real.cos bearing) ^ 2) = |length|
  rw [hsq, Real.sqrt_sq_eq_abs]

namespace Point

/-- There and back is as far. -/
theorem length_wayTo_comm (p q : Point ℝ) : (p.wayTo q).length = (q.wayTo p).length := by
  have hsq : (q.x - p.x) ^ 2 + (q.y - p.y) ^ 2 = (p.x - q.x) ^ 2 + (p.y - q.y) ^ 2 := by ring
  exact congrArg Real.sqrt hsq

/-- **A circle has a point in the direction of any other**, and it is as far from that one as their
distances from the center differ. -/
theorem exists_at_distance (center y : Point ℝ) {radius : ℝ} (hr : 0 ≤ radius) :
    ∃ x : Point ℝ, (center.wayTo x).length = radius ∧
      (x.wayTo y).length = |(center.wayTo y).length - radius| := by
  have hy : center.shift (Bearing.offset (center.wayTo y).length
      (Bearing.ofOffset (center.wayTo y))) = y := by
    rw [Bearing.offset_ofOffset, shift_wayTo]
  set far := (center.wayTo y).length
  set bearing := Bearing.ofOffset (center.wayTo y)
  refine ⟨center.shift (Bearing.offset radius bearing), ?_, ?_⟩
  · rw [wayTo_shift, Bearing.length_offset, abs_of_nonneg hr]
  · have hway : (center.shift (Bearing.offset radius bearing)).wayTo y =
        Bearing.offset (far - radius) bearing := by
      rw [← hy]
      simp only [shift, wayTo, Bearing.offset]
      congr 1 <;> ring
    rw [hway, Bearing.length_offset]

end Point

/-! ## What a pass clears -/

namespace ArcPlan.Plain

variable {p : ArcPlan ℝ} (h : p.Plain)

include h

/-- **A pass clears a whole disc** exactly if the radius reaches from the innermost ring to the
center. -/
theorem pass_clears_iff {m : Machine ℝ} {k n : ℕ} (hm : m.position.point = p.origin)
    (hcenter : 0 < p.order.center.length)
    (hn : passCount p.order.center.length (p.order.ringStep p.tool) = .ok n) {radius : ℝ}
    (hradius : p.order.ringStep p.tool ≤ 2 * radius) :
    (∀ y, (p.middle.wayTo y).length ≤ p.order.center.length →
        Clears (fun d => d.kind.isArc) radius (p.entering k m).2.position (p.passMoves k m) y) ↔
      p.order.center.length - ((⌈p.order.center.length / p.order.ringStep p.tool⌉₊ - 1 : ℕ) : ℝ) *
        p.order.ringStep p.tool ≤ radius := by
  have hrings (x : Point ℝ) := h.passesOver_passMoves_iff (x := x) (k := k) hm hcenter hn
  have hstep : 0 < p.order.ringStep p.tool := (of_passCount hn).1
  set step := p.order.ringStep p.tool
  set size := p.order.center.length
  have hcount : 0 < ⌈size / step⌉₊ := Nat.ceil_pos.mpr (div_pos hcenter hstep)
  have hinside {j : ℕ} (hj : j < ⌈size / step⌉₊) : j * step < size :=
    (lt_div_iff₀ hstep).mp (Nat.lt_ceil.mp hj)
  constructor
  · intro hall
    -- the center is as far from every ring as that is large
    have hzero : (p.middle.wayTo p.middle).length ≤ size := by
      simp [Point.wayTo, Offset.length, hypot, hcenter.le]
    obtain ⟨x, hx, hlen⟩ := hall p.middle hzero
    obtain ⟨j, hj, hdist⟩ := (hrings x).mp hx
    rw [Point.length_wayTo_comm, hdist] at hlen
    have hle : (j : ℝ) ≤ (⌈size / step⌉₊ - 1 : ℕ) := by exact_mod_cast Nat.le_sub_one_of_lt hj
    nlinarith
  · intro hreach y hy
    have hdeep : 0 ≤ size - (p.middle.wayTo y).length := by linarith
    have hpos : 0 ≤ (p.middle.wayTo y).length := Real.sqrt_nonneg _
    -- some ring is near enough: the last one, or one of the two around the point
    obtain ⟨i, hi, hnear⟩ : ∃ i < ⌈size / step⌉₊,
        |(p.middle.wayTo y).length - (size - i * step)| ≤ radius := by
      obtain ⟨j, hj, hlow, hhigh⟩ := exists_last_step hstep hdeep (⌈size / step⌉₊ - 1)
      by_cases hlast : j = ⌈size / step⌉₊ - 1
      · refine ⟨j, by omega, abs_le.mpr ?_⟩
        rw [← hlast] at hreach
        constructor <;> linarith
      · have hhigh := hhigh.resolve_left hlast
        rcases le_total (size - (p.middle.wayTo y).length - j * step) (step / 2) with hhalf | hhalf
        · refine ⟨j, by omega, abs_le.mpr ?_⟩
          constructor <;> linarith
        · refine ⟨j + 1, by omega, abs_le.mpr ?_⟩
          rw [Nat.cast_succ]
          constructor <;> linarith
    have hring : 0 ≤ size - i * step := (sub_pos.mpr (hinside hi)).le
    obtain ⟨x, hx, hdist⟩ := Point.exists_at_distance p.middle y hring
    exact ⟨x, (hrings x).mpr ⟨i, hi, hx⟩, hdist.trans_le hnear⟩

end ArcPlan.Plain

/-! ## The pocket of an order -/

namespace ArcOrder

/-- A pocket that passes its check has a radius, and its rings are counted. -/
theorem of_check_pocket {o : ArcOrder ℝ} {tool : Tool ℝ} (hc : o.check tool = .ok ())
    (hcut : o.cut = .pocket) :
    0 < o.center.length ∧ ∃ n, passCount o.center.length (o.ringStep tool) = .ok n := by
  refine ⟨tolerance_pos.trans (ArcPlan.tolerance_lt_length (of_check hc).2.1), ?_⟩
  unfold check at hc
  obtain ⟨_, -, hc⟩ := exists_of_bind_eq_ok hc
  rw [hcut] at hc
  obtain ⟨n, hn, -⟩ := exists_of_bind_eq_ok hc
  exact ⟨n, hn⟩

theorem ringStep_of_unit {o : ArcOrder ℝ} (hscale : o.scale = ⟨1, 1⟩) (tool : Tool ℝ) :
    o.ringStep tool = tool.stepOver := by
  show tool.stepOver / Max.max |o.scale.x| |o.scale.y| = _
  rw [hscale, abs_one, max_self, div_one]

theorem plain_ofOrder {o : ArcOrder ℝ} {tool : Tool ℝ} {m : Machine ℝ} (hcut : o.cut = .pocket)
    (hscale : o.scale = ⟨1, 1⟩) (ht : m.transforms.anyActive = false) :
    (ArcPlan.ofOrder o tool m).Plain where
  cut_eq := hcut
  scale_eq := hscale
  direct := by
    show (|o.scale.x| != |o.scale.y| || m.transforms.anyActive) = false
    rw [hscale, ht, Bool.or_false]
    exact bne_self_eq_false _

/-- **What a circular pocket clears.** Every cut belongs to a pass. If no transform bends the rings,
each pass clears the whole disc if and only if the radius of the cutter reaches from the innermost
ring to the center. -/
theorem clears_disc_iff {o : ArcOrder ℝ} {tool : Tool ℝ} {m : Machine ℝ}
    (hc : o.check tool = .ok ()) (hcut : o.cut = .pocket) (hscale : o.scale = ⟨1, 1⟩)
    (htool : tool.fault? = none) (ht : m.transforms.anyActive = false) (command : CommandKind) :
    let p := ArcPlan.ofOrder o tool m
    (o.execute command tool m).rejection = none ∧
      ((o.execute command tool m).machine.since m).filter Move.cuts =
        (List.range o.passes.repetitions.toNat).flatMap
          (fun k => (p.passMoves k m).filter Move.cuts) ∧
      ∀ k < o.passes.repetitions.toNat,
        (∀ y, ((m.position.point.shift o.center).wayTo y).length ≤ o.center.length →
            Clears (fun d => d.kind.isArc) (tool.cutterDiameter / 2) (p.entering k m).2.position
              (p.passMoves k m) y) ↔
          o.center.length - ((⌈o.center.length / tool.stepOver⌉₊ - 1 : ℕ) : ℝ) * tool.stepOver ≤
            tool.cutterDiameter / 2 := by
  intro p
  have h : p.Plain := plain_ofOrder hcut hscale ht
  obtain ⟨hcenter, n, hn⟩ := of_check_pocket hc hcut
  have hstep : o.ringStep tool = tool.stepOver := ringStep_of_unit hscale tool
  refine ⟨?_, ?_, ?_⟩
  · rw [execute_of_check hc]
  · rw [execute_of_check hc]
    have hall := p.filter_cuts_carryOut m
    rw [p.bottomMoves_of_pocket h.cut_eq, List.filter_nil, List.append_nil] at hall
    exact hall
  · intro k _
    rw [← hstep]
    refine h.pass_clears_iff rfl hcenter hn ?_
    show o.ringStep tool ≤ 2 * (tool.cutterDiameter / 2)
    rw [hstep]
    linarith [(Tool.of_fault? htool).2.2]

/-! ### A circle with one ring and nothing inside, and one with three -/

/-- A circular pocket around a center that far to the right. -/
noncomputable def roundPocket (radius : ℝ) : ArcOrder ℝ where
  finish := ⟨0, 0⟩
  center := ⟨radius, 0⟩
  turn := .clockwise
  passes := .single
  scale := ⟨1, 1⟩
  cut := .pocket

theorem roundPocket_length {radius : ℝ} (hr : 0 < radius) :
    (roundPocket radius).center.length = radius :=
  (length_alongX radius).trans (abs_of_pos hr)

theorem roundPocket_check {radius : ℝ} {tool : Tool ℝ} {n : ℕ} (hr : 1e-6 < radius)
    (hn : passCount radius tool.stepOver = .ok n) :
    (roundPocket radius).check tool = .ok () := by
  have hpos : 0 < radius := tolerance_pos.trans hr
  have hcenter : ¬(roundPocket radius).center.Negligible :=
    not_negligible_alongX (hr.trans_le (le_abs_self radius))
  have hcut : (roundPocket radius).passes.repetitions ≠ 0 := show (1 : UInt32) ≠ 0 by decide
  refine check_of_passCount rfl hcut one_ne_zero one_ne_zero hcenter (n := n) ?_
  rwa [roundPocket_length hpos, ringStep_of_unit rfl]

/-- A pocket whose ring is larger than the cutter of the standard tool reaches, and no larger than
one step. -/
noncomputable def smallCircle : ArcOrder ℝ := roundPocket 0.2

theorem smallCircle_length : smallCircle.center.length = 0.2 := roundPocket_length (by norm_num)

theorem smallCircle_check : smallCircle.check .standard = .ok () := by
  have hcount : passCount (0.2 : ℝ) (Tool.standard : Tool ℝ).stepOver = .ok 0 := by
    rw [stepOver_standard]
    refine passCount_of_fits (by norm_num) ?_ ?_ (Nat.zero_le _)
    · norm_num
    · norm_num [abs_of_pos]
  exact roundPocket_check (by norm_num) hcount

/-- A pocket whose third ring is as small as the cutter of the standard tool reaches. -/
noncomputable def wideCircle : ArcOrder ℝ := roundPocket 0.5

theorem wideCircle_length : wideCircle.center.length = 0.5 := roundPocket_length (by norm_num)

theorem wideCircle_check : wideCircle.check .standard = .ok () := by
  have hcount : passCount (0.5 : ℝ) (Tool.standard : Tool ℝ).stepOver = .ok 2 := by
    rw [stepOver_standard]
    refine passCount_of_fits (by norm_num) ?_ ?_ (by decide)
    · norm_num [abs_of_pos]
    · norm_num [abs_of_pos]
  exact roundPocket_check (by norm_num) hcount

/-- From three rings the wide circle is cleared. -/
theorem circles_clears_disc_iff :
    (smallCircle.check .standard = .ok () ∧ (Tool.standard : Tool ℝ).fault? = none ∧
      ((∀ y, ((overOrigin.position.point.shift smallCircle.center).wayTo y).length ≤
          smallCircle.center.length →
          Clears (fun d => d.kind.isArc) ((Tool.standard : Tool ℝ).cutterDiameter / 2)
            ((ArcPlan.ofOrder smallCircle .standard overOrigin).entering 0 overOrigin).2.position
            ((ArcPlan.ofOrder smallCircle .standard overOrigin).passMoves 0 overOrigin) y) ↔
        smallCircle.center.length -
            ((⌈smallCircle.center.length / (Tool.standard : Tool ℝ).stepOver⌉₊ - 1 : ℕ) : ℝ) *
              (Tool.standard : Tool ℝ).stepOver ≤
          (Tool.standard : Tool ℝ).cutterDiameter / 2)) ∧
    wideCircle.check .standard = .ok () ∧
      ⌈wideCircle.center.length / (Tool.standard : Tool ℝ).stepOver⌉₊ = 3 ∧
      ∀ y, ((overOrigin.position.point.shift wideCircle.center).wayTo y).length ≤
          wideCircle.center.length →
          Clears (fun d => d.kind.isArc) ((Tool.standard : Tool ℝ).cutterDiameter / 2)
            ((ArcPlan.ofOrder wideCircle .standard overOrigin).entering 0 overOrigin).2.position
            ((ArcPlan.ofOrder wideCircle .standard overOrigin).passMoves 0 overOrigin) y := by
  obtain ⟨-, -, hsmall⟩ :=
    clears_disc_iff smallCircle_check rfl rfl Tool.standard_fault? (m := overOrigin) rfl .arc
  obtain ⟨-, -, hwide⟩ :=
    clears_disc_iff wideCircle_check rfl rfl Tool.standard_fault? (m := overOrigin) rfl .arc
  have hthree : ⌈wideCircle.center.length / (Tool.standard : Tool ℝ).stepOver⌉₊ = 3 := by
    rw [wideCircle_length, stepOver_standard, Nat.ceil_eq_iff three_ne_zero]
    norm_num
  refine ⟨⟨smallCircle_check, Tool.standard_fault?, hsmall 0 (by decide)⟩, wideCircle_check, hthree,
    (hwide 0 (by decide)).mpr ?_⟩
  rw [hthree, wideCircle_length, stepOver_standard, Tool.standard_radius]
  norm_num

/-- The center of this pocket stays uncut. -/
theorem smallCircle_not_cleared :
    (smallCircle.execute .arc .standard overOrigin).rejection = none ∧
      ¬∀ y, ((overOrigin.position.point.shift smallCircle.center).wayTo y).length ≤
          smallCircle.center.length →
          Clears (fun d => d.kind.isArc) ((Tool.standard : Tool ℝ).cutterDiameter / 2)
            ((ArcPlan.ofOrder smallCircle .standard overOrigin).entering 0 overOrigin).2.position
            ((ArcPlan.ofOrder smallCircle .standard overOrigin).passMoves 0 overOrigin) y := by
  refine ⟨by rw [execute_of_check smallCircle_check], fun hall => ?_⟩
  have h : (ArcPlan.ofOrder smallCircle .standard overOrigin).Plain := plain_ofOrder rfl rfl rfl
  obtain ⟨hcenter, n, hn⟩ := of_check_pocket smallCircle_check rfl
  have hstep : smallCircle.ringStep .standard = 0.225 := by
    rw [ringStep_of_unit rfl, stepOver_standard]
  have hreach := (h.pass_clears_iff rfl hcenter hn (by
    show smallCircle.ringStep .standard ≤ 2 * ((Tool.standard : Tool ℝ).cutterDiameter / 2)
    rw [hstep, Tool.standard_radius]
    norm_num)).mp hall
  have hreach : smallCircle.center.length -
      ((⌈smallCircle.center.length / smallCircle.ringStep .standard⌉₊ - 1 : ℕ) : ℝ) *
        smallCircle.ringStep .standard ≤ (Tool.standard : Tool ℝ).cutterDiameter / 2 := hreach
  have hone : ⌈(0.2 : ℝ) / 0.225⌉₊ = 1 := by
    rw [Nat.ceil_eq_iff one_ne_zero]
    norm_num
  rw [hstep, Tool.standard_radius, smallCircle_length, hone] at hreach
  norm_num at hreach

end ArcOrder

end Toolpath
