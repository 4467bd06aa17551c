import Toolpath.Proofs.Arc.Passes
import Toolpath.Proofs.PlanView
import Toolpath.Proofs.Verdict

/-!
# The plan view of an arc

An arc order with other flags, carried out with another safe height, comes down to the same plan but
for these (`ArcPlan.varied`). Each part of the plan looks the same from above as the part of the
other one, from whatever depth it is cut. The only parts that look at the height of the tool before
they move are the retract, the pull-up and the way to the surface, and they move along the Z axis.

* `ArcPlan.follow_congr` — along an arc, in one move or in segments
* `ArcPlan.pass_congr`, `ArcPlan.passes_congr` — one pass, all passes
* `ArcPlan.carryOut_congr` — the whole plan
* `ArcOrder.execute_congr` — an order is rejected for the same cause or looks the same
-/

namespace Toolpath

open Scalar Machine

variable {α : Type} [Scalar α]

omit [Scalar α] in
/-- The same order with other flags. -/
def ArcOrder.withFlags (o : ArcOrder α) (f : Passes.Flags) : ArcOrder α :=
  { o with passes := o.passes.withFlags f }

/-! ## Segments -/

namespace Sampler

omit [Scalar α] in
/-- The same points, at other depths and another speed. -/
def varied (s : Sampler α) (d : Depth α) (feed : α) : Sampler α :=
  { s with depth := d, feed := feed }

theorem movesFrom_varied (s : Sampler α) (d : Depth α) (feed : α) (limit : Nat) (angle : α) :
    ((s.varied d feed).movesFrom limit angle).map Move.stroke? =
      (s.movesFrom limit angle).map Move.stroke? := by
  induction limit generalizing angle with
  | zero => rfl
  | succ limit ih =>
    have hnext := ih (angle + s.step)
    by_cases hlast : s.sweep - angle < snapFactor * s.step
    · have hlast' : (s.varied d feed).sweep - angle < snapFactor * (s.varied d feed).step := hlast
      rw [movesFrom, movesFrom, if_pos hlast, if_pos hlast']
      rfl
    · have hlast' : ¬(s.varied d feed).sweep - angle < snapFactor * (s.varied d feed).step := hlast
      rw [movesFrom, movesFrom, if_neg hlast, if_neg hlast', List.map_cons, List.map_cons, ← hnext]
      rfl

theorem moves_varied (s : Sampler α) (d : Depth α) (feed : α) :
    (s.varied d feed).moves.map Move.stroke? = s.moves.map Move.stroke? := by
  have hmoves := s.movesFrom_varied d feed s.bound 0
  by_cases hs : s.degenerate = true
  · have hs' : (s.varied d feed).degenerate = true := hs
    rw [moves, moves, if_pos hs, if_pos hs']
  · have hs' : ¬(s.varied d feed).degenerate = true := hs
    rw [moves, moves, if_neg hs, if_neg hs']
    exact hmoves

end Sampler

namespace ArcPlan

omit [Scalar α] in
/-- The same plan with other flags and another safe height. -/
def varied (p : ArcPlan α) (f : Passes.Flags) (safeZ : α) : ArcPlan α :=
  { p with order := p.order.withFlags f, tool := p.tool.withSafeZ safeZ }

variable (p : ArcPlan α) (f : Passes.Flags) (safeZ : α) {m n : Machine α}

omit [Scalar α] in
@[simp] theorem cut_varied : (p.varied f safeZ).order.cut = p.order.cut := rfl

omit [Scalar α] in
@[simp] theorem segmented_varied : (p.varied f safeZ).segmented = p.segmented := rfl

@[simp] theorem closed_varied : (p.varied f safeZ).Closed ↔ p.Closed := Iff.rfl

/-! ## The parts of a plan -/

theorem stroke?_circularMove (a : Arc α) (d : Depth α) (feed : α) :
    (p.circularMove a d feed).stroke? =
      (Move.arc p.clockwise (p.stretch.point a.finish) (p.stretch.offset a.center)
        feed).stroke? := by
  unfold circularMove
  cases d.ramps <;> rfl

/-- **An arc looks the same at any depth.** -/
theorem follow_congr (h : m.planView = n.planView) (a : Arc α) (d e : Depth α) :
    (p.follow a d m).planView = ((p.varied f safeZ).follow a e n).planView := by
  unfold follow
  rw [segmented_varied]
  split
  · have hsegments := (Sampler.ofArc a p.stretch d p.tool.arcStep m.feeds.xyPerMinute).moves_varied
      e n.feeds.xyPerMinute
    rw [Sampler.cut_eq, Sampler.cut_eq]
    exact emitAll_congr h hsegments.symm
  · refine emit_congr h ?_
    rw [stroke?_circularMove, stroke?_circularMove]
    rfl

theorem ring_congr (h : m.planView = n.planView) (z w : α) (v : Offset α) :
    (p.ring z m v).planView = ((p.varied f safeZ).ring w n v).planView :=
  p.follow_congr f safeZ h _ _ _

theorem nest_congr (h : m.planView = n.planView) (z w : α) (rings : List (Offset α)) :
    (p.nest z m rings).planView = ((p.varied f safeZ).nest w n rings).planView := by
  cases rings with
  | nil => exact h
  | cons v rest =>
    have hfirst := p.ring_congr f safeZ h z w v
    refine foldl_congr (fun m n v hmn => ?_) rest hfirst
    have hline := lineTo_congr hmn (p.stretch.point (p.ringStart v))
    exact p.ring_congr f safeZ hline z w v

theorem goBack_congr (h : m.planView = n.planView) :
    (p.goBack m).planView = ((p.varied f safeZ).goBack n).planView := by
  have hup := retract_congr h p.tool.safeZ safeZ
  exact rapidXY_congr hup p.origin

theorem pocket_congr (h : m.planView = n.planView) (z w : α) :
    (p.pocket z m).planView = ((p.varied f safeZ).pocket w n).planView := by
  have hrings := p.nest_congr f safeZ h z w p.rings
  have hup := rapidZ_congr hrings p.tool.safeZ safeZ
  exact rapidXY_congr hup p.origin

/-! ## Passes -/

theorem pass_congr (h : m.planView = n.planView) (z w : α) :
    (p.pass z m).2.planView = ((p.varied f safeZ).pass w n).2.planView := by
  have hsink := Lifts.congr h (p.lifts_sink z m) ((p.varied f safeZ).lifts_sink w n)
  unfold pass
  rw [cut_varied]
  cases p.order.cut with
  | profile => exact p.follow_congr f safeZ hsink _ _ _
  | pocket => exact p.pocket_congr f safeZ hsink _ _
  | spiral => exact p.follow_congr f safeZ h _ _ _
  | spiralWithBottom => exact p.follow_congr f safeZ h _ _ _

theorem between_congr (h : m.planView = n.planView) (z w : α) :
    (p.between z m).planView = ((p.varied f safeZ).between w n).planView := by
  have hback := p.goBack_congr f safeZ h
  unfold between
  rw [cut_varied]
  by_cases hthere : p.order.cut = .pocket ∨ p.Closed
  · have hthere' : p.order.cut = .pocket ∨ (p.varied f safeZ).Closed := hthere
    rw [if_pos hthere, if_pos hthere']
    exact h
  · have hthere' : ¬(p.order.cut = .pocket ∨ (p.varied f safeZ).Closed) := hthere
    rw [if_neg hthere, if_neg hthere']
    split
    · exact plungeTo_congr hback z w
    · exact hback

/-- **Passes look the same from any depth.** -/
theorem passes_congr (h : m.planView = n.planView) (k : Nat) (z w : α) :
    (p.passes k z m).2.planView = ((p.varied f safeZ).passes k w n).2.planView := by
  -- the depths of the two plans part, so nothing is said of them
  have hreach (k : Nat) :
      (p.reach k z m).2.planView = ((p.varied f safeZ).reach k w n).2.planView := by
    induction k with
    | zero => exact h
    | succ k ih =>
      rw [reach_succ, reach_succ]
      exact p.between_congr f safeZ (p.pass_congr f safeZ ih _ _) _ _
  cases k with
  | zero => exact h
  | succ k =>
    rw [passes_succ, passes_succ]
    exact p.pass_congr f safeZ (hreach k) _ _

theorem bottom_congr (h : m.planView = n.planView) (z w : α) :
    (p.bottom z m).planView = ((p.varied f safeZ).bottom w n).planView := by
  unfold bottom
  rw [cut_varied]
  cases p.order.cut with
  | profile => exact h
  | pocket => exact h
  | spiral => exact h
  | spiralWithBottom =>
    refine p.follow_congr f safeZ ?_ _ _ _
    simp only [closed_varied]
    split
    · exact h
    · exact plungeTo_congr (p.goBack_congr f safeZ h) z w

/-! ## The whole plan -/

/-- **A plan looks the same with other flags and another safe height**, from any height of the
tool. -/
theorem carryOut_congr (h : m.planView = n.planView) :
    (p.carryOut m).planView = ((p.varied f safeZ).carryOut n).planView := by
  have hnoted : (p.noted m).planView = ((p.varied f safeZ).noted n).planView := h
  have hopened : (p.opened m).2.planView = ((p.varied f safeZ).opened n).2.planView :=
    Lifts.congr hnoted (p.lifts_surface _) ((p.varied f safeZ).lifts_surface _)
  have hfinished := p.passes_congr f safeZ hopened p.order.passes.repetitions.toNat (p.opened m).1
    ((p.varied f safeZ).opened n).1
  rw [carryOut_eq, carryOut_eq]
  exact pullUp_congr (p.bottom_congr f safeZ hfinished _ _) _ _ _ _

end ArcPlan

/-! ## Orders -/

namespace ArcOrder

variable {m n : Machine α}

theorem check_withFlags (o : ArcOrder α) (f : Passes.Flags) (tool : Tool α) (safeZ : α) :
    (o.withFlags f).check (tool.withSafeZ safeZ) = o.check tool := rfl

/-- The plan of an order depends on the plan view of the machine. -/
theorem ofOrder_withFlags (h : m.planView = n.planView) (o : ArcOrder α) (f : Passes.Flags)
    (tool : Tool α) (safeZ : α) :
    ArcPlan.ofOrder (o.withFlags f) (tool.withSafeZ safeZ) n =
      (ArcPlan.ofOrder o tool m).varied f safeZ := by
  have htransforms : m.transforms = n.transforms := congrArg PlanView.transforms h
  unfold ArcPlan.ofOrder ArcPlan.varied
  rw [point_congr h, htransforms]
  rfl

theorem execute_congr (h : m.planView = n.planView) (o : ArcOrder α) (f : Passes.Flags)
    (command : CommandKind) (tool : Tool α) (safeZ : α) :
    (o.execute command tool m).SameShow
      ((o.withFlags f).execute command (tool.withSafeZ safeZ) n) := by
  have hcheck := o.check_withFlags f tool safeZ
  cases hc : o.check tool with
  | error cause =>
    rw [hc] at hcheck
    rw [execute_of_check_error hc, execute_of_check_error hcheck]
    exact ⟨rfl, h⟩
  | ok u =>
    rw [hc] at hcheck
    rw [execute_of_check hc, execute_of_check hcheck, ofOrder_withFlags h]
    exact ⟨rfl, ArcPlan.carryOut_congr _ f safeZ h⟩

theorem executeMade_congr (h : m.planView = n.planView) (f : Passes.Flags) (command : CommandKind)
    (tool : Tool α) (safeZ : α) (made : Except (Cause α) (ArcOrder α)) :
    (executeMade command tool made m).SameShow
      (executeMade command (tool.withSafeZ safeZ) (made.map (·.withFlags f)) n) := by
  cases made with
  | error cause => exact ⟨rfl, h⟩
  | ok o => exact o.execute_congr h f command tool safeZ

end ArcOrder

end Toolpath
