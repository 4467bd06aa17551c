import Toolpath.Proofs.Arc.Cuts
import Toolpath.Proofs.Height

/-!
# The depth of an arc order

How deep each pass of an arc order cuts, in exact arithmetic. A spiral goes from each depth to the
next, and its bottom stays at the last. A level pass cuts at its depth if the tool is there when the
cuts begin, and a pass that goes down is there. One that does not go down is there only if the tool
has not been raised since: after a pocket, and after an arc that does not end where it starts, the
tool has gone back at the safe height and nothing takes it down.

* `CutsLevel` — the cuts of a run are at a depth
* `ArcPlan.pass_level_iff` — a level pass is at its depth exactly if it starts there
* `ArcPlan.entering_z_of_flat`, `ArcPlan.entering_z_of_spiral` — where the tool is before a pass
* `ArcOrder.depth_law_iff` — the depth of every cut of an order
-/

namespace Toolpath

open Scalar RealScalar

/-- A cut starts and ends at a depth. -/
def CutsLevel {α : Type} (z : α) (p : Position α) (d : Move α) : Prop :=
  d.cuts = true → p.z = z ∧ (p.after d).z = z

section

variable {α : Type} {z : α} {m m' : Machine α}

theorem CutsLevel.of_idle (h : Machine.Leads (fun _ d => d.Idle) m m') :
    Along (CutsLevel z) m.position (m'.since m) :=
  h.along_since.mono fun _ d hd hcut => absurd (hcut.symm.trans hd) (by decide)

/-- Cuts that keep a depth are at that depth if the first of them starts there. -/
theorem CutsLevel.of_cutsAt (h : Machine.Leads (fun _ d => d.CutsAt z) m m')
    (hz : m.position.z = z) :
    Along (CutsLevel z) m.position (m'.since m) ∧ m'.position.z = z := by
  have hkeeps : Machine.Leads (fun _ d => d.Keeps z) m m' := h.mono fun _ _ hd => hd.2
  obtain ⟨halong, hend⟩ := hkeeps.along_since.at_depth hz
  refine ⟨halong.mono ?_, by rwa [hkeeps.position_eq]⟩
  intro p d hd _
  exact hd

/-- If some cuts are at a depth, the first of them starts there. -/
theorem CutsLevel.start (h : Machine.Leads (fun _ d => d.CutsAt z) m m')
    (hne : m'.since m ≠ []) {z' : α} (hlevel : Along (CutsLevel z') m.position (m'.since m)) :
    m.position.z = z' := by
  obtain ⟨ds, rfl, hds⟩ := h
  rw [Machine.since_emitAll] at hne hlevel
  cases ds with
  | nil => exact absurd rfl hne
  | cons d ds => exact (hlevel.1 hds.1.1).1

end

namespace ArcPlan

/-! ## A level pass -/

section

variable {α : Type} [Scalar α] (p : ArcPlan α)

/-- A level pass cuts at its depth if the tool is there after going down, and if it has anything to
cut, then only if it is there. -/
theorem pass_level_iff (h : p.order.cut.isSpiral = false) {z : α} {m : Machine α}
    (hne : (p.levelCuts (p.sink z m).1 (p.sink z m).2).since (p.sink z m).2 ≠ []) :
    Along (CutsLevel (p.sink z m).1) m.position ((p.pass z m).2.since m) ↔
      (p.sink z m).2.position.z = (p.sink z m).1 := by
  have hsink := p.idle_sink z m
  have hcuts := p.levelCuts_level (p.sink z m).1 (p.sink z m).2
  obtain ⟨-, hrest⟩ := p.pass_of_level h z m
  rw [(hsink.emits.trans hcuts.emits).along_since_trans hrest, hsink.along_since_trans hcuts]
  constructor
  · rintro ⟨⟨-, hlevel⟩, -⟩
    exact CutsLevel.start hcuts hne hlevel
  · intro hz
    exact ⟨⟨CutsLevel.of_idle hsink, (CutsLevel.of_cutsAt hcuts hz).1⟩, CutsLevel.of_idle hrest⟩

end

end ArcPlan

/-! ## Counting depths -/

/-- The depth that an order counts from. -/
noncomputable def ArcOrder.surface (o : ArcOrder ℝ) (start : ℝ) : ℝ :=
  if o.passes.fromZero then 0 else start

/-- The depth that an order comes to by a number of passes. -/
noncomputable def ArcOrder.depthAfter (o : ArcOrder ℝ) (start : ℝ) (k : ℕ) : ℝ :=
  o.surface start + k * o.passes.plunge

theorem ArcOrder.depthAfter_succ (o : ArcOrder ℝ) (start : ℝ) (k : ℕ) :
    o.depthAfter start (k + 1) = o.depthAfter start k + o.passes.plunge := by
  unfold depthAfter
  rw [Nat.cast_succ]
  ring

namespace ArcPlan

variable {p : ArcPlan ℝ}

theorem sink_of_plunge (h : p.order.passes.plunge ≠ 0) (z : ℝ) (m : Machine ℝ) :
    p.sink z m = (z + p.order.passes.plunge, m.plungeTo (z + p.order.passes.plunge)) :=
  if_pos (bne_zero_real.mpr h)

theorem sink_of_flat (h : p.order.passes.plunge = 0) (z : ℝ) (m : Machine ℝ) :
    p.sink z m = (z, m) :=
  if_neg fun hne => bne_zero_real.mp hne h

theorem pass_fst (z : ℝ) (m : Machine ℝ) : (p.pass z m).1 = z + p.order.passes.plunge := by
  cases hs : p.order.cut.isSpiral with
  | true => rw [p.pass_of_spiral hs]
  | false =>
    rw [(p.pass_of_level hs z m).1]
    by_cases h : p.order.passes.plunge = 0
    · rw [sink_of_flat h, h, add_zero]
    · rw [sink_of_plunge h]

/-- An order is opened at the depth that it counts from. -/
theorem opened_at_surface (m : Machine ℝ) :
    (p.opened m).1 = p.order.surface m.position.z ∧
      (p.opened m).2.position.z = p.order.surface m.position.z := by
  unfold opened surface ArcOrder.surface
  cases hz : p.order.passes.fromZero with
  | false => exact ⟨rfl, rfl⟩
  | true =>
    rw [Bool.true_and, if_pos rfl]
    by_cases h : (p.noted m).position.z = 0
    · rw [if_neg fun hne => bne_zero_real.mp hne h]
      exact ⟨h, h⟩
    · rw [if_pos (bne_zero_real.mpr h)]
      exact ⟨real_zero, real_zero⟩

theorem entering_fst (k : ℕ) (m : Machine ℝ) :
    (p.entering k m).1 = p.order.depthAfter m.position.z k := by
  induction k with
  | zero =>
    have hopened := (opened_at_surface (p := p) m).1
    rw [ArcOrder.depthAfter, Nat.cast_zero, zero_mul, add_zero]
    exact hopened
  | succ k ih =>
    rw [entering_succ, ArcOrder.depthAfter_succ, ← ih]
    exact pass_fst _ _

theorem leaving_fst (k : ℕ) (m : Machine ℝ) :
    (p.leaving k m).1 = p.order.depthAfter m.position.z (k + 1) := by
  rw [leaving, pass_fst, entering_fst, ArcOrder.depthAfter_succ]

theorem goBack_z (m : Machine ℝ) : (p.goBack m).position.z = p.tool.safeZ :=
  eq_of_alike (m.retract_z p.tool.safeZ)

/-! ## Level passes -/

/-- A level pass of an order that does not go down leaves a closed profile at its depth. -/
theorem pass_z_of_flat (hcut : p.order.cut = .profile) (hp : p.order.passes.plunge = 0) {z : ℝ}
    {m : Machine ℝ} (hz : m.position.z = z) : (p.pass z m).2.position.z = z := by
  have hpass : (p.pass z m).2 = p.follow p.outline (.level z) m := by
    unfold pass
    rw [hcut, sink_of_flat hp]
  rw [hpass]
  exact (CutsLevel.of_cutsAt (p.follow_level p.outline z m) hz).2

theorem pass_z_of_pocket (hcut : p.order.cut = .pocket) (z : ℝ) (m : Machine ℝ) :
    (p.pass z m).2.position.z = p.tool.safeZ := by
  unfold pass
  rw [hcut]
  rfl

/-- **Where the tool is before a pass of an order that does not go down:** at the surface before the
first one, and before every one around a closed profile; at the safe height otherwise. -/
theorem entering_z_of_flat (hs : p.order.cut.isSpiral = false)
    (hp : p.order.passes.plunge = 0) (k : ℕ) (m : Machine ℝ) :
    (p.entering k m).2.position.z =
      if k = 0 ∨ p.order.cut = .profile ∧ p.Closed then p.order.surface m.position.z
      else p.tool.safeZ := by
  induction k with
  | zero =>
    rw [if_pos (Or.inl rfl)]
    exact (opened_at_surface m).2
  | succ k ih =>
    rw [entering_succ]
    by_cases hstay : p.order.cut = .profile ∧ p.Closed
    · have hdepth : (p.entering k m).1 = p.order.surface m.position.z := by
        rw [entering_fst, ArcOrder.depthAfter, hp, mul_zero, add_zero]
      rw [if_pos (Or.inr hstay)] at ih ⊢
      rw [between, if_pos (Or.inr hstay.2), leaving, hdepth]
      exact pass_z_of_flat hstay.1 hp ih
    · rw [if_neg (by rintro (h | h); exacts [Nat.succ_ne_zero k h, hstay h])]
      by_cases hcut : p.order.cut = .pocket
      · rw [between, if_pos (Or.inl hcut)]
        exact pass_z_of_pocket hcut _ _
      · have hprofile : p.order.cut = .profile := (CircleCut.level_cases hs).resolve_right hcut
        have hopen : ¬p.Closed := fun h => hstay ⟨hprofile, h⟩
        rw [between, if_neg (not_or.mpr ⟨hcut, hopen⟩), hs, if_neg Bool.false_ne_true]
        exact goBack_z _

/-- A level pass is at its depth if it goes down, or if the tool is there already. -/
theorem passMoves_level_iff (hs : p.order.cut.isSpiral = false) {k : ℕ} {m : Machine ℝ}
    (hne : ∀ z m, (p.levelCuts z m).since m ≠ []) :
    Along (CutsLevel (p.order.depthAfter m.position.z (k + 1))) (p.entering k m).2.position
        (p.passMoves k m) ↔
      p.order.passes.plunge ≠ 0 ∨
        (p.entering k m).2.position.z = p.order.depthAfter m.position.z k := by
  have hiff := p.pass_level_iff hs (hne _ _) (z := (p.entering k m).1) (m := (p.entering k m).2)
  rw [← leaving_fst, leaving, (p.pass_of_level hs _ _).1]
  refine hiff.trans ?_
  by_cases hp : p.order.passes.plunge = 0
  · rw [sink_of_flat hp, entering_fst]
    exact ⟨Or.inr, fun h => h.resolve_left fun hne => hne hp⟩
  · rw [sink_of_plunge hp]
    exact ⟨fun _ => Or.inl hp, fun _ => rfl⟩

/-- **The depth of level passes.** All of them are at their depth exactly if each goes down, or
there is one alone, or they go round a closed profile, or the safe height is the surface. -/
theorem passes_level_iff (hs : p.order.cut.isSpiral = false) {m : Machine ℝ} {n : ℕ} (hn : n ≠ 0)
    (hne : ∀ z m, (p.levelCuts z m).since m ≠ []) :
    (∀ k < n, Along (CutsLevel (p.order.depthAfter m.position.z (k + 1)))
        (p.entering k m).2.position (p.passMoves k m)) ↔
      p.order.passes.plunge ≠ 0 ∨ n = 1 ∨ p.order.cut = .profile ∧ p.Closed ∨
        p.tool.safeZ = p.order.surface m.position.z := by
  by_cases hp : p.order.passes.plunge = 0
  · have hdepth (k : ℕ) : p.order.depthAfter m.position.z k = p.order.surface m.position.z := by
      rw [ArcOrder.depthAfter, hp, mul_zero, add_zero]
    constructor
    · intro hall
      by_cases hone : n = 1
      · exact Or.inr (Or.inl hone)
      · -- the second pass is the first one that the tool may have been raised for
        have hsecond := (passMoves_level_iff hs hne).mp (hall 1 (by omega))
        have hz := hsecond.resolve_left fun h => h hp
        rw [entering_z_of_flat hs hp, hdepth] at hz
        by_cases hstay : p.order.cut = .profile ∧ p.Closed
        · exact Or.inr (Or.inr (Or.inl hstay))
        · rw [if_neg (by rintro (h | h); exacts [Nat.one_ne_zero h, hstay h])] at hz
          exact Or.inr (Or.inr (Or.inr hz))
    · intro hcase k hk
      refine (passMoves_level_iff hs hne).mpr (Or.inr ?_)
      rw [entering_z_of_flat hs hp, hdepth]
      rcases hcase with h | h | h | h
      · exact absurd hp h
      · rw [if_pos (Or.inl (by omega))]
      · rw [if_pos (Or.inr h)]
      · rw [h, ite_self]
  · exact ⟨fun _ => Or.inl hp, fun _ k _ => (passMoves_level_iff hs hne).mpr (Or.inl hp)⟩

/-! ## Spirals -/

/-- Following an arc down a ramp ends deeper by all of it. -/
theorem follow_ramp_z {a : Arc ℝ} (h : p.segmented = true → ¬a.Degenerate) {z : ℝ} (d : ℝ)
    {m : Machine ℝ} (hz : m.position.z = z) :
    (p.follow a (.ramp z d) m).position.z = z + d := by
  unfold follow
  by_cases hs : p.segmented = true
  · -- only the last segment counts, and it is as deep as the whole angle makes it
    obtain ⟨angles, hangles, -⟩ :=
      segments_eq_append (h hs) p.stretch (.ramp z d) p.tool.arcStep m.feeds.xyPerMinute
    have hwhole : a.sweep / a.sweep = 1 := div_self (Arc.sweep_pos (h hs)).ne'
    rw [if_pos hs, Sampler.cut_eq, Machine.position_emitAll, hangles, Position.afterAll_append]
    show (Depth.ramp z d).along (a.sweep / a.sweep) = (Depth.ramp z d).final
    rw [hwhole, Depth.along_one]
  · rw [if_neg hs]
    by_cases hd : d = 0
    · have hlevel : (Depth.ramp z d).ramps = false := by
        rw [Depth.ramps, ← Bool.not_eq_true, bne_zero_real, hd, not_not]
      rw [circularMove, hlevel, hd, add_zero]
      exact hz
    · have hramps : (Depth.ramp z d).ramps = true := bne_zero_real.mpr hd
      rw [circularMove, hramps]
      rfl

/-- **Where the tool is before and after a pass of a spiral.** -/
theorem entering_z_of_spiral (hs : p.order.cut.isSpiral = true)
    (hd : p.segmented = true → ¬p.outline.Degenerate) (k : ℕ) (m : Machine ℝ) :
    (p.entering k m).2.position.z = p.order.depthAfter m.position.z k ∧
      (p.leaving k m).2.position.z = p.order.depthAfter m.position.z (k + 1) := by
  have hleave (k : ℕ) (hz : (p.entering k m).2.position.z = p.order.depthAfter m.position.z k) :
      (p.leaving k m).2.position.z = p.order.depthAfter m.position.z (k + 1) := by
    rw [leaving, p.pass_of_spiral hs, ArcOrder.depthAfter_succ, entering_fst]
    exact follow_ramp_z hd _ hz
  induction k with
  | zero =>
    have hz : (p.entering 0 m).2.position.z = p.order.depthAfter m.position.z 0 := by
      rw [ArcOrder.depthAfter, Nat.cast_zero, zero_mul, add_zero]
      exact (opened_at_surface m).2
    exact ⟨hz, hleave 0 hz⟩
  | succ k ih =>
    have hz : (p.entering (k + 1) m).2.position.z = p.order.depthAfter m.position.z (k + 1) := by
      rw [entering_succ]
      unfold between
      by_cases hclosed : p.Closed
      · rw [if_pos (Or.inr hclosed)]
        exact ih.2
      · rw [if_neg (not_or.mpr ⟨CircleCut.ne_pocket hs, hclosed⟩), hs, if_pos rfl]
        exact leaving_fst k m
    exact ⟨hz, hleave (k + 1) hz⟩

/-- A pass of a spiral cuts with every move, and there is one at least. -/
theorem passMoves_of_spiral (hs : p.order.cut.isSpiral = true)
    (hd : p.segmented = true → ¬p.outline.Degenerate) (k : ℕ) (m : Machine ℝ) :
    p.passMoves k m ≠ [] ∧ ∀ d ∈ p.passMoves k m, d.cuts = true := by
  unfold passMoves leaving
  rw [p.pass_of_spiral hs]
  exact ⟨p.follow_ne_nil hd _ _, (p.follow_leads _ _ _).along_since.forall⟩

/-- The bottom of a spiral is at the depth of the last pass. -/
theorem bottomMoves_level (hcut : p.order.cut = .spiralWithBottom)
    (hd : p.segmented = true → ¬p.outline.Degenerate)
    (hr : p.order.passes.repetitions ≠ 0) (m : Machine ℝ) :
    Along (CutsLevel (p.order.depthAfter m.position.z p.order.passes.repetitions.toNat))
      (p.finished m).2.position (p.bottomMoves m) := by
  have hs : p.order.cut.isSpiral = true := by
    rw [hcut]
    rfl
  obtain ⟨n, hn⟩ := Passes.exists_succ hr
  have hfst : (p.finished m).1 = p.order.depthAfter m.position.z (n + 1) := by
    rw [p.finished_eq hn, leaving_fst]
  have hz : (p.finished m).2.position.z = (p.finished m).1 := by
    rw [hfst, p.finished_eq hn]
    exact (entering_z_of_spiral hs hd n m).2
  have habove :
      (p.aboveBottom (p.finished m).1 (p.finished m).2).position.z = (p.finished m).1 := by
    unfold aboveBottom
    rw [if_pos hcut]
    split
    · exact hz
    · rfl
  have hidle := p.idle_aboveBottom (p.finished m).1 (p.finished m).2
  have hbottom := p.bottom_level (p.finished m).1 (p.finished m).2
  rw [hn, ← hfst, bottomMoves, hidle.along_since_trans hbottom]
  exact ⟨CutsLevel.of_idle hidle, (CutsLevel.of_cutsAt hbottom habove).1⟩

end ArcPlan

/-! ## The depth law -/

namespace ArcOrder

/-- **The depth of an arc order**, from a depth that is counted from the surface. Every cut belongs
to a pass or to the bottom. The passes of a profile or a pocket are at their depths if and only if
they go down, or there is one alone, or the profile is closed, or the safe height is the surface.
Each pass of a spiral starts at one depth and ends at the next, and the bottom is at the last. -/
theorem depth_law_iff {o : ArcOrder ℝ} {tool : Tool ℝ} {m : Machine ℝ}
    (hc : o.check tool = .ok ())
    (hd : (ArcPlan.ofOrder o tool m).segmented = true → o.cut ≠ .pocket →
      ¬(ArcPlan.ofOrder o tool m).outline.Degenerate)
    (command : CommandKind) :
    let p := ArcPlan.ofOrder o tool m
    let n := o.passes.repetitions.toNat
    let z := o.depthAfter m.position.z
    (o.execute command tool m).rejection = none ∧
      ((o.execute command tool m).machine.since m).filter Move.cuts =
        ((List.range n).flatMap fun k => (p.passMoves k m).filter Move.cuts) ++
          (p.bottomMoves m).filter Move.cuts ∧
      (o.cut.isSpiral = false →
        ((∀ k < n, Along (CutsLevel (z (k + 1))) (p.entering k m).2.position (p.passMoves k m)) ↔
          o.passes.plunge ≠ 0 ∨ n = 1 ∨ o.cut = .profile ∧ p.Closed ∨
            tool.safeZ = o.surface m.position.z)) ∧
      (o.cut.isSpiral = true → ∀ k < n,
        (p.passMoves k m ≠ [] ∧ ∀ d ∈ p.passMoves k m, d.cuts = true) ∧
          (p.entering k m).2.position.z = z k ∧
          ((p.entering k m).2.position.afterAll (p.passMoves k m)).z = z (k + 1)) ∧
      (o.cut = .spiralWithBottom →
        Along (CutsLevel (z n)) (p.finished m).2.position (p.bottomMoves m)) := by
  intro p n z
  have hr : o.passes.repetitions ≠ 0 := (of_check hc).1
  have hn : n ≠ 0 := fun h => hr (UInt32.toNat_inj.mp h)
  refine ⟨?_, ?_, ?_, ?_, ?_⟩
  · rw [execute_of_check hc]
  · rw [execute_of_check hc]
    exact p.filter_cuts_carryOut m
  · intro hs
    exact ArcPlan.passes_level_iff hs hn (ArcPlan.levelCuts_ne_nil hc hd)
  · intro hs k _
    have hdeep : p.segmented = true → ¬p.outline.Degenerate :=
      fun h => hd h (CircleCut.ne_pocket hs)
    obtain ⟨hstart, hend⟩ := ArcPlan.entering_z_of_spiral hs hdeep k m
    refine ⟨ArcPlan.passMoves_of_spiral hs hdeep k m, hstart, ?_⟩
    rw [ArcPlan.passMoves, ← (p.emits_leaving k m).position_eq]
    exact hend
  · intro hcut
    have hs : o.cut.isSpiral = true := by
      rw [hcut]
      rfl
    exact ArcPlan.bottomMoves_level hcut (fun h => hd h (CircleCut.ne_pocket hs)) hr m

/-! ### Half a circle, cut twice without going down -/

/-- Half a circle around a center to the right, twice at the same depth. -/
noncomputable def halfCircleTwice : ArcOrder ℝ where
  finish := ⟨2, 0⟩
  center := ⟨1, 0⟩
  turn := .clockwise
  passes := ⟨0, 2, false, false⟩
  scale := ⟨1, 1⟩
  cut := .profile

/-- A machine at the origin. -/
noncomputable def atOrigin : Machine ℝ := .atRest ⟨0, 0, 0⟩ .standard .none

/-- The plan of the half circles from there, with the standard tool. -/
noncomputable def halfCirclePlan : ArcPlan ℝ := .ofOrder halfCircleTwice .standard atOrigin

theorem halfCircleTwice_check : halfCircleTwice.check .standard = .ok () := by
  have hcenter : ¬halfCircleTwice.center.Negligible := not_negligible_alongX (by norm_num)
  exact check_of_ne_pocket (by decide) (by decide) one_ne_zero one_ne_zero hcenter _

theorem halfCirclePlan_segmented : halfCirclePlan.segmented = false := by
  show (|(1 : ℝ)| != |(1 : ℝ)| || false) = false
  simp

theorem halfCirclePlan_open : ¬halfCirclePlan.Closed := by
  rintro ⟨hx, -⟩
  have hx : |(0 : ℝ) - 2| ≤ 1e-6 := hx
  norm_num at hx

theorem halfCirclePlan_not_degenerate : halfCirclePlan.segmented = true →
    halfCircleTwice.cut ≠ .pocket → ¬halfCirclePlan.outline.Degenerate := by
  rw [halfCirclePlan_segmented]
  exact fun h => absurd h Bool.false_ne_true

theorem halfCircleTwice_depth_law_iff :
    halfCircleTwice.check .standard = .ok () ∧
      ((∀ k < 2, Along (CutsLevel (halfCircleTwice.depthAfter 0 (k + 1)))
          (halfCirclePlan.entering k atOrigin).2.position
          (halfCirclePlan.passMoves k atOrigin)) ↔
        halfCircleTwice.passes.plunge ≠ 0 ∨ 2 = 1 ∨
          halfCircleTwice.cut = .profile ∧ halfCirclePlan.Closed ∨
          (Tool.standard : Tool ℝ).safeZ = halfCircleTwice.surface 0) := by
  have hlaw := depth_law_iff halfCircleTwice_check halfCirclePlan_not_degenerate .arc
  exact ⟨halfCircleTwice_check, hlaw.2.2.1 rfl⟩

/-- The second of these half circles is not cut at the depth of the first: the tool has stayed at
the safe height. -/
theorem halfCircleTwice_not_level :
    (halfCircleTwice.execute .arc .standard atOrigin).rejection = none ∧
      ¬∀ k < 2, Along (CutsLevel (halfCircleTwice.depthAfter 0 (k + 1)))
        (halfCirclePlan.entering k atOrigin).2.position
        (halfCirclePlan.passMoves k atOrigin) := by
  refine ⟨by rw [execute_of_check halfCircleTwice_check], fun hall => ?_⟩
  have hne (z : ℝ) (m : Machine ℝ) : (halfCirclePlan.levelCuts z m).since m ≠ [] :=
    ArcPlan.levelCuts_ne_nil halfCircleTwice_check halfCirclePlan_not_degenerate z m
  have hlaw : _ ↔ _ := ArcPlan.passes_level_iff (p := halfCirclePlan) (m := atOrigin) rfl
    (n := 2) (by decide) hne
  rcases hlaw.mp hall with h | h | ⟨-, h⟩ | h
  · exact h rfl
  · exact absurd h (by decide)
  · exact halfCirclePlan_open h
  · have hsafe : (0.5 : ℝ) = 0 := h
    norm_num at hsafe

end ArcOrder

end Toolpath
