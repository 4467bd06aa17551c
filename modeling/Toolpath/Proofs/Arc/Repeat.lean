import Toolpath.Proofs.Arc.Nest

/-!
# A circuit again and again

An arc that ends exactly where it starts, and is cut along its outline, leaves the tool over its
start at the depth of the next pass. So nothing tells the passes of one order from those of several
orders in a row, in exact arithmetic: an order of some passes, followed by the same order of some
more, is one order of all of them.

* `ArcOrder.repeated` — the same order with another number of passes
* `ArcPlan.Circuit`, `ArcPlan.circuitMoves` — a plan that leads back to its start, and its pass
* `ArcPlan.Circuit.passes_eq`, `ArcPlan.Circuit.position_circuits` — what its passes emit, and where
  they end
* `ArcOrder.repetitions_compose` — repetitions add up
-/

namespace Toolpath

open Scalar RealScalar

section

variable {α : Type}

/-- The same order with another number of passes. -/
def ArcOrder.repeated (o : ArcOrder α) (n : UInt32) : ArcOrder α :=
  { o with passes := { o.passes with repetitions := n } }

variable [Scalar α]

/-- An order passes its check with any number of passes but zero. -/
theorem ArcOrder.check_repeated {o : ArcOrder α} {tool : Tool α} (h : o.check tool = .ok ())
    {n : UInt32} (hn : n ≠ 0) : (o.repeated n).check tool = .ok () := by
  have hsome : ¬(o.repeated n).passes.repetitions = 0 := hn
  have hvalidate : (o.repeated n).validate = o.validate := by
    unfold validate
    rw [if_neg hsome, if_neg (of_check h).1]
    rfl
  unfold check at h ⊢
  rw [hvalidate]
  exact h

/-- A plan depends on the point and the transforms of the machine alone. -/
theorem ArcPlan.ofOrder_congr (o : ArcOrder α) (tool : Tool α) {m m' : Machine α}
    (hpoint : m'.position.point = m.position.point) (htransforms : m'.transforms = m.transforms) :
    ofOrder o tool m' = ofOrder o tool m := by
  unfold ofOrder
  rw [hpoint, htransforms]

end

namespace ArcPlan

variable (p : ArcPlan ℝ)

/-! ## One circuit -/

/-- A plan that cuts along an arc of some radius, from its start back to it. -/
structure Circuit : Prop where
  finish_eq : p.order.finish = p.origin
  cut : p.order.cut = .profile ∨ p.order.cut = .spiral
  long : tolerance < p.order.center.length

/-- The moves of one pass, from a depth: down and round, or down on the way round. -/
noncomputable def circuitMoves (feeds : Feeds ℝ) (z : ℝ) : List (Move ℝ) :=
  if p.order.cut.isSpiral then
    p.followMoves p.outline (.ramp z p.order.passes.plunge) feeds.xyPerMinute
  else
    p.sinkMoves z feeds.zPerMinute ++
      p.followMoves p.outline (.level (z + p.order.passes.plunge)) feeds.xyPerMinute

variable {p}

theorem sink_eq (z : ℝ) (m : Machine ℝ) :
    p.sink z m =
      (z + p.order.passes.plunge, m.emitAll (p.sinkMoves z m.feeds.zPerMinute)) := by
  refine Prod.ext ?_ (p.sink_snd z m)
  by_cases h : p.order.passes.plunge = 0
  · rw [sink_of_flat h, h, add_zero]
  · rw [sink_of_plunge h]

/-- Following an arc leads to its stretched end. -/
theorem follow_point {a : Arc ℝ} (h : p.segmented = true → ¬a.Degenerate) (d : Depth ℝ)
    (m : Machine ℝ) : (p.follow a d m).position.point = p.stretch.point a.finish := by
  rw [follow_eq, Machine.position_emitAll, followMoves]
  by_cases hs : p.segmented = true
  · obtain ⟨angles, hangles, -⟩ :=
      segments_eq_append (h hs) p.stretch d p.tool.arcStep m.feeds.xyPerMinute
    rw [if_pos hs, hangles, Position.afterAll_append]
    rfl
  · obtain ⟨-, ⟨hx, hy⟩, -⟩ := p.circularMove_words a d m.feeds.xyPerMinute
    rw [if_neg hs]
    simp [Position.after, Position.point, hx, hy]

namespace Circuit

variable (h : p.Circuit)

include h

theorem closed : p.Closed := by
  have hnear := near_refl p.origin
  unfold Closed
  rwa [h.finish_eq]

theorem not_degenerate : ¬p.outline.Degenerate := not_degenerate_of_closed h.closed h.long

theorem pass_eq (z : ℝ) (m : Machine ℝ) :
    p.pass z m = (z + p.order.passes.plunge, m.emitAll (p.circuitMoves m.feeds z)) := by
  rcases h.cut with hcut | hcut
  · have hlevel : p.circuitMoves m.feeds z = _ := if_neg (by rw [hcut]; exact Bool.false_ne_true)
    have hpass : p.pass z m =
        ((p.sink z m).1, p.follow p.outline (.level (p.sink z m).1) (p.sink z m).2) := by
      rw [pass, hcut]
    rw [hpass, hlevel, follow_eq, sink_eq, Machine.feeds_emitAll, Machine.emitAll_append]
  · have hspiral : p.order.cut.isSpiral = true := by
      rw [hcut]
      rfl
    have hramp : p.circuitMoves m.feeds z = _ := if_pos hspiral
    rw [p.pass_of_spiral hspiral, hramp, follow_eq]

/-- **A circuit leads back over its start**, at the depth of the next pass. -/
theorem position_pass {z : ℝ} {m : Machine ℝ} (hz : m.position.z = z) :
    (p.pass z m).2.position = ⟨p.origin.x, p.origin.y, z + p.order.passes.plunge⟩ := by
  have hback : p.stretch.point p.outline.finish = p.origin := by
    show p.stretch.point p.order.finish = p.origin
    rw [h.finish_eq]
    exact p.stretch.point_origin
  have hdeep : p.segmented = true → ¬p.outline.Degenerate := fun _ => h.not_degenerate
  have hend (d : Depth ℝ) (m : Machine ℝ)
      (hdepth : (p.follow p.outline d m).position.z = z + p.order.passes.plunge) :
      (p.follow p.outline d m).position =
        ⟨p.origin.x, p.origin.y, z + p.order.passes.plunge⟩ := by
    have hpoint := (follow_point hdeep d m).trans hback
    rw [← hdepth, ← hpoint]
    rfl
  rcases h.cut with hcut | hcut
  · have hpass : (p.pass z m).2 =
        p.follow p.outline (.level (p.sink z m).1) (p.sink z m).2 := by rw [pass, hcut]
    have hsunk : (p.sink z m).2.position.z = (p.sink z m).1 := by
      by_cases hp : p.order.passes.plunge = 0
      · rwa [sink_of_flat hp]
      · rw [sink_of_plunge hp]
        rfl
    rw [hpass]
    refine hend _ _ ?_
    rw [(CutsLevel.of_cutsAt (p.follow_level p.outline _ _) hsunk).2, sink_eq]
  · rw [p.pass_of_spiral (by rw [hcut]; rfl)]
    exact hend _ _ (follow_ramp_z hdeep _ hz)

end Circuit

/-! ## Some circuits -/

/-- The moves of a number of passes, from a depth. -/
noncomputable def circuits (p : ArcPlan ℝ) (feeds : Feeds ℝ) (n : ℕ) (z : ℝ) : List (Move ℝ) :=
  (List.range n).flatMap fun k : ℕ => p.circuitMoves feeds (z + k * p.order.passes.plunge)

theorem circuits_add (feeds : Feeds ℝ) (n k : ℕ) (z : ℝ) :
    p.circuits feeds (n + k) z =
      p.circuits feeds n z ++ p.circuits feeds k (z + n * p.order.passes.plunge) := by
  have hfrom (i : ℕ) : z + (n + i : ℕ) * p.order.passes.plunge =
      z + n * p.order.passes.plunge + i * p.order.passes.plunge := by
    push_cast
    ring
  simp only [circuits, List.range_add, List.flatMap_append, List.flatMap_map, hfrom]

theorem circuits_succ (feeds : Feeds ℝ) (n : ℕ) (z : ℝ) :
    p.circuits feeds (n + 1) z =
      p.circuitMoves feeds z ++ p.circuits feeds n (z + p.order.passes.plunge) := by
  rw [Nat.add_comm, circuits_add]
  simp [circuits]

/-- Between two passes of a closed arc there is nothing. -/
theorem passes_succ_of_closed (h : p.Closed) (n : ℕ) (z : ℝ) (m : Machine ℝ) :
    p.passes (n + 1) z m = p.passes n (p.pass z m).1 (p.pass z m).2 := by
  cases n with
  | zero => rfl
  | succ n =>
    have hstay : p.between (p.pass z m).1 (p.pass z m).2 = (p.pass z m).2 := if_pos (Or.inr h)
    show p.passes (n + 1) (p.pass z m).1 (p.between (p.pass z m).1 (p.pass z m).2) = _
    rw [hstay]

namespace Circuit

variable (h : p.Circuit)

include h

/-- **What the passes of a circuit emit**, and the depth they come to. -/
theorem passes_eq (n : ℕ) (z : ℝ) (m : Machine ℝ) :
    p.passes n z m = (z + n * p.order.passes.plunge, m.emitAll (p.circuits m.feeds n z)) := by
  induction n generalizing z m with
  | zero => simp [passes, circuits]
  | succ n ih =>
    rw [passes_succ_of_closed h.closed, h.pass_eq, ih, Machine.feeds_emitAll, circuits_succ,
      Machine.emitAll_append]
    congr 1
    push_cast
    ring

theorem position_circuits (n : ℕ) {z : ℝ} {m : Machine ℝ}
    (hm : m.position = ⟨p.origin.x, p.origin.y, z⟩) :
    (m.emitAll (p.circuits m.feeds n z)).position =
      ⟨p.origin.x, p.origin.y, z + n * p.order.passes.plunge⟩ := by
  induction n generalizing z m with
  | zero => simpa [circuits] using hm
  | succ n ih =>
    have hnext := h.position_pass (z := z) (m := m) (by rw [hm])
    rw [h.pass_eq] at hnext
    have hrest := ih hnext
    rw [Machine.feeds_emitAll] at hrest
    rw [circuits_succ, Machine.emitAll_append, hrest]
    congr 1
    push_cast
    ring

/-- **A plan of a circuit that counts depth from where the tool is, and leaves it down,** emits its
passes and nothing else. -/
theorem carryOut_eq (hzero : p.order.passes.fromZero = false)
    (hdown : p.order.passes.stayDown = true) (m : Machine ℝ) :
    p.carryOut m =
      { m with arcStart := m.position, keepDepth := false }.emitAll
        (p.circuits m.feeds p.order.passes.repetitions.toNat m.position.z) := by
  have hopened : p.opened m =
      (m.position.z, { m with arcStart := m.position, keepDepth := false }) := by
    unfold opened surface noted
    rw [hzero]
    rfl
  have hbottom (z : ℝ) (m : Machine ℝ) : p.bottom z m = m := by
    unfold bottom
    rcases h.cut with hcut | hcut <;> rw [hcut]
  rw [ArcPlan.carryOut_eq, hbottom, finished, hopened, h.passes_eq, hdown]
  rfl

end Circuit

end ArcPlan

/-! ## Orders in a row -/

namespace ArcOrder

variable {o : ArcOrder ℝ} {tool : Tool ℝ} {m : Machine ℝ}

/-- What a checked order of a circuit comes to, with any number of passes. -/
theorem execute_repeated (hc : o.check tool = .ok ()) (h : (ArcPlan.ofOrder o tool m).Circuit)
    (hzero : o.passes.fromZero = false) (hdown : o.passes.stayDown = true) {n : UInt32}
    (hn : n ≠ 0) (command : CommandKind) :
    (o.repeated n).execute command tool m =
      ⟨{ m with arcStart := m.position, keepDepth := false }.emitAll
        ((ArcPlan.ofOrder o tool m).circuits m.feeds n.toNat m.position.z), none⟩ := by
  have hcircuit : (ArcPlan.ofOrder (o.repeated n) tool m).Circuit := ⟨h.finish_eq, h.cut, h.long⟩
  rw [execute_of_check (check_repeated hc hn), hcircuit.carryOut_eq hzero hdown]
  rfl

/-- An order of a circuit leaves the tool over its start, deeper by all its passes. -/
theorem position_repeated (hc : o.check tool = .ok ()) (h : (ArcPlan.ofOrder o tool m).Circuit)
    (hzero : o.passes.fromZero = false) (hdown : o.passes.stayDown = true) {n : UInt32}
    (hn : n ≠ 0) (command : CommandKind) :
    ((o.repeated n).execute command tool m).machine.position =
      ⟨m.position.x, m.position.y, m.position.z + n.toNat * o.passes.plunge⟩ := by
  rw [execute_repeated hc h hzero hdown hn]
  exact h.position_circuits n.toNat (m := { m with arcStart := m.position, keepDepth := false }) rfl

/-- What the same order comes to after it. It begins where the first one has begun, only deeper, so
it makes the same plan. -/
theorem execute_repeated_again (hc : o.check tool = .ok ())
    (h : (ArcPlan.ofOrder o tool m).Circuit) (hzero : o.passes.fromZero = false)
    (hdown : o.passes.stayDown = true) {n k : UInt32} (hn : n ≠ 0) (hk : k ≠ 0)
    (command : CommandKind) :
    let first := ((o.repeated n).execute command tool m).machine
    (o.repeated k).execute command tool first =
      ⟨{ first with arcStart := first.position, keepDepth := false }.emitAll
        ((ArcPlan.ofOrder o tool m).circuits m.feeds k.toNat
          (m.position.z + n.toNat * o.passes.plunge)), none⟩ := by
  intro first
  have hfirst : first = _ :=
    congrArg Outcome.machine (execute_repeated hc h hzero hdown hn command)
  have hposition : first.position = _ := position_repeated hc h hzero hdown hn command
  have hplan : ArcPlan.ofOrder o tool first = ArcPlan.ofOrder o tool m := by
    refine ArcPlan.ofOrder_congr o tool ?_ ?_
    · rw [hposition]
      rfl
    · rw [hfirst, Machine.transforms_emitAll]
  have hfeeds : first.feeds = m.feeds := by rw [hfirst, Machine.feeds_emitAll]
  have hdepth : first.position.z = m.position.z + n.toNat * o.passes.plunge := by rw [hposition]
  have hexecute := execute_repeated (m := first) hc (by rwa [hplan]) hzero hdown hk command
  rw [hexecute, hplan, hfeeds, hdepth]

/-- **Repetitions add up.** An accepted order of a closed outline or spiral, which ends where the
tool is, counts depth from there and leaves the tool down, may be carried out with all its passes at
once, or with some of them first and the others after: each way the same moves are emitted, and the
machine is left in the same state, except that it has noted the start of the last order. -/
theorem repetitions_compose {command : CommandKind}
    (h : (o.execute command tool m).rejection = none) (hcut : o.cut = .profile ∨ o.cut = .spiral)
    (hzero : o.passes.fromZero = false) (hdown : o.passes.stayDown = true)
    (hclosed : o.finish = m.position.point) {n k : UInt32} (hn : n ≠ 0) (hk : k ≠ 0)
    (hfits : n.toNat + k.toNat < UInt32.size) :
    let whole := (o.repeated (n + k)).execute command tool m
    let first := (o.repeated n).execute command tool m
    let second := (o.repeated k).execute command tool first.machine
    (whole.rejection = none ∧ first.rejection = none ∧ second.rejection = none) ∧
      whole.machine.since m = first.machine.since m ++ second.machine.since first.machine ∧
      whole.machine.position = second.machine.position ∧
      whole.machine = { second.machine with arcStart := m.position } := by
  intro whole first second
  have hc := check_of_accepted h
  have hcircuit : (ArcPlan.ofOrder o tool m).Circuit :=
    ⟨hclosed, hcut, ArcPlan.tolerance_lt_length (of_check hc).2.1⟩
  let start : Machine ℝ := { m with arcStart := m.position, keepDepth := false }
  let front := (ArcPlan.ofOrder o tool m).circuits m.feeds n.toNat m.position.z
  let rest := (ArcPlan.ofOrder o tool m).circuits m.feeds k.toNat
    (m.position.z + n.toNat * o.passes.plunge)
  have hfirst : first = ⟨start.emitAll front, none⟩ :=
    execute_repeated hc hcircuit hzero hdown hn command
  have hsecond : second =
      ⟨{ first.machine with arcStart := first.machine.position, keepDepth := false }.emitAll rest,
        none⟩ := execute_repeated_again hc hcircuit hzero hdown hn hk command
  have hwhole : whole = ⟨start.emitAll (front ++ rest), none⟩ := by
    have hsum : (n + k).toNat = n.toNat + k.toNat := by
      rw [UInt32.toNat_add]
      exact Nat.mod_eq_of_lt hfits
    have hsome : n + k ≠ 0 := by
      intro hnone
      rw [hnone] at hsum
      exact hn (UInt32.toNat_inj.mp (Nat.eq_zero_of_add_eq_zero_right hsum.symm))
    have hexecute := execute_repeated hc hcircuit hzero hdown hsome command
    rwa [hsum, ArcPlan.circuits_add] at hexecute
  have hsame : whole.machine = { second.machine with arcStart := m.position } := by
    rw [hwhole, hsecond, Machine.emitAll_append, Machine.emitAll_eq, Machine.emitAll_eq, hfirst]
    simp [start]
  refine ⟨⟨by rw [hwhole], by rw [hfirst], by rw [hsecond]⟩, ?_, by rw [hsame], hsame⟩
  have hall : whole.machine.since m = front ++ rest := by
    rw [hwhole]
    exact Machine.since_of_queue (start.queue_emitAll _)
  have hfront : first.machine.since m = front := by
    rw [hfirst]
    exact Machine.since_of_queue (start.queue_emitAll _)
  have hrest : second.machine.since first.machine = rest := by
    rw [hsecond]
    exact Machine.since_of_queue (Machine.queue_emitAll _ _)
  rw [hall, hfront, hrest]

/-! ### An ellipse, two times and then three times -/

/-- An ellipse that goes down by a half with each pass, and is cut as segments. -/
noncomputable def spiralDown : ArcOrder ℝ where
  finish := ⟨0, 0⟩
  center := ⟨1, 0⟩
  turn := .clockwise
  passes := ⟨-0.5, 1, true, false⟩
  scale := ⟨2, 1⟩
  cut := .spiral

theorem spiralDown_check : spiralDown.check .standard = .ok () := by
  have hcenter : ¬spiralDown.center.Negligible := not_negligible_alongX (by norm_num)
  exact check_of_ne_pocket (by decide) (by decide) two_ne_zero one_ne_zero hcenter _

theorem spiralDown_repetitions_compose :
    ((spiralDown.execute .arc .standard atOrigin).rejection = none ∧
      (spiralDown.cut = .profile ∨ spiralDown.cut = .spiral) ∧
      spiralDown.passes.fromZero = false ∧ spiralDown.passes.stayDown = true ∧
      spiralDown.finish = atOrigin.position.point) ∧
      let whole := (spiralDown.repeated 5).execute .arc .standard atOrigin
      let first := (spiralDown.repeated 2).execute .arc .standard atOrigin
      let second := (spiralDown.repeated 3).execute .arc .standard first.machine
      whole.machine.since atOrigin =
          first.machine.since atOrigin ++ second.machine.since first.machine ∧
        whole.machine.position = second.machine.position := by
  have haccepted : (spiralDown.execute .arc .standard atOrigin).rejection = none := by
    rw [execute_of_check spiralDown_check]
  have hcompose := repetitions_compose haccepted (Or.inr rfl) rfl rfl rfl (n := 2) (k := 3)
    (by decide) (by decide) (by decide)
  exact ⟨⟨haccepted, Or.inr rfl, rfl, rfl, rfl⟩, hcompose.2.1, hcompose.2.2.1⟩

end ArcOrder

end Toolpath
