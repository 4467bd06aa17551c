import Toolpath.Proofs.PlanView
import Toolpath.Proofs.Rectangle.Laps

/-!
# The plan view of a rectangle

The layout of a rectangle has no heights in it, and a lap looks the same whether it is level or goes
down a ramp. The tool goes back over the start corner if it is away from it, and that is a matter of
the plan view as well. So a rectangle with other flags, cut with another safe height from another
height, looks the same.

* `Layout.lap_congr`, `Layout.rampLap_congr` — a lap from any depth
* `Rectangle.pass_congr`, `Rectangle.repeatPass_congr` — one pass, all passes
* `Rectangle.carryOut_congr` — the whole rectangle
* `Rectangle.execute_congr` — a rectangle is rejected for the same cause or looks the same
-/

namespace Toolpath

open Scalar Machine

variable {α : Type} [Scalar α] {m n : Machine α}

/-! ## Laps -/

namespace Layout

variable (l : Layout α)

theorem lap_congr (h : m.planView = n.planView) (k : Nat) :
    (l.lap k m).planView = (l.lap k n).planView := by
  refine foldl_congr (fun m n p hmn => ?_) (l.lapCorners k) h
  exact lineTo_congr hmn p

theorem rampLap_congr (h : m.planView = n.planView) (k : Nat) (z w plunge : α) :
    (l.rampLap k z plunge m).planView = (l.rampLap k w plunge n).planView := by
  refine foldl_congr (fun m n pf hmn => ?_) ((l.lapCorners k).zip rampFractions) h
  exact emit_congr hmn rfl

theorem innerLaps_congr (h : m.planView = n.planView) :
    (l.innerLaps m).planView = (l.innerLaps n).planView := by
  refine foldl_congr (fun m n j hmn => ?_) (List.range (l.laps - 1)) h
  exact l.lap_congr (lineTo_congr hmn (l.entry (j + 1))) (j + 1)

end Layout

/-! ## Passes -/

namespace Rectangle

omit [Scalar α] in
/-- The same rectangle with other flags. -/
def withFlags (r : Rectangle α) (f : Passes.Flags) : Rectangle α :=
  { r with passes := r.passes.withFlags f }

variable (r : Rectangle α) (f : Passes.Flags) (l : Layout α)

/-- **A pass looks the same at any depth**, as the flags have no part in how it is cut. -/
theorem pass_congr (h : m.planView = n.planView) (isFirst : Bool) (z w : α) :
    (r.pass l isFirst z m).2.planView = ((r.withFlags f).pass l isFirst w n).2.planView := by
  have hramped := l.rampLap_congr h 0 z w r.passes.plunge
  have hplunged := plungeTo_congr h (z + r.passes.plunge) (w + r.passes.plunge)
  have hpass : (r.withFlags f).pass l isFirst w n = r.pass l isFirst w n := rfl
  -- what decides between the ways to go down is the same for both, so the cases do not mix
  rw [hpass]
  unfold pass
  by_cases hp : (r.passes.plunge != 0) = true
  · simp only [if_pos hp]
    by_cases hr : (r.rampFirst && isFirst) = true
    · simp only [if_pos hr]
      by_cases hn : r.passes.repetitions = 1
      · simp only [if_pos hn]
        exact l.innerLaps_congr (l.lap_congr hramped 0)
      · simp only [if_neg hn]
        exact l.innerLaps_congr hramped
    · simp only [if_neg hr]
      exact l.innerLaps_congr (l.lap_congr hplunged 0)
  · simp only [if_neg hp]
    exact l.innerLaps_congr (l.lap_congr h 0)

theorem goBack_congr (h : m.planView = n.planView) (tool : Tool α) (safeZ : α) (isLast : Bool)
    (z w : α) :
    (goBack tool l isLast z m).planView =
      (goBack (tool.withSafeZ safeZ) l isLast w n).planView := by
  have hover := over_congr h (l.entry 0)
  have hup := retract_congr h tool.safeZ safeZ
  have hback := rapidXY_congr hup (l.entry 0)
  unfold goBack
  by_cases hm : m.position.Over (l.entry 0)
  · rw [if_pos hm, if_pos (hover.mp hm)]
    exact h
  · rw [if_neg hm, if_neg fun hn => hm (hover.mpr hn)]
    cases isLast with
    | true => exact hback
    | false => exact plungeTo_congr hback z w

theorem repeatPass_congr (tool : Tool α) (safeZ : α) (k : Nat) (isFirst : Bool) (z w : α)
    (h : m.planView = n.planView) :
    (r.repeatPass tool l k isFirst z m).planView =
      ((r.withFlags f).repeatPass (tool.withSafeZ safeZ) l k isFirst w n).planView := by
  induction k generalizing isFirst z w m n with
  | zero => exact h
  | succ k ih =>
    have hpass := r.pass_congr f l h isFirst z w
    exact ih _ _ _ (goBack_congr l hpass tool safeZ _ _ _)

/-! ## The whole rectangle -/

theorem pulledUp_congr (h : m.planView = n.planView) (tool : Tool α) (safeZ : α) :
    (r.pulledUp tool l m).planView =
      ((r.withFlags f).pulledUp (tool.withSafeZ safeZ) l n).planView := by
  have happroach := approach_congr h tool (tool.withSafeZ safeZ) (l.entry 0)
    (r.surface m.position.z) ((r.withFlags f).surface n.position.z)
  exact pullUp_congr (r.repeatPass_congr f l tool safeZ _ true _ _ happroach) _ _ _ _

/-- **A rectangle looks the same with other flags and another safe height**, from any height of the
tool. -/
theorem carryOut_congr (h : m.planView = n.planView) (tool : Tool α) (safeZ : α) :
    (r.carryOut tool l m).planView =
      ((r.withFlags f).carryOut (tool.withSafeZ safeZ) l n).planView := by
  have hup := r.pulledUp_congr f l h tool safeZ
  have hcut : (r.withFlags f).cut = r.cut := rfl
  rw [carryOut_eq, carryOut_eq, hcut]
  split
  · rw [point_congr h]
    exact rapidXY_congr hup n.position.point
  · exact hup

theorem layout_withFlags (position : Point α) (tool : Tool α) (safeZ : α) :
    Layout.ofRectangle (r.withFlags f) position (tool.withSafeZ safeZ) =
      Layout.ofRectangle r position tool := rfl

theorem execute_congr (h : m.planView = n.planView) (tool : Tool α) (safeZ : α) :
    (r.execute tool m).SameShow ((r.withFlags f).execute (tool.withSafeZ safeZ) n) := by
  unfold execute
  rw [layout_withFlags, point_congr h]
  cases Layout.ofRectangle r n.position.point tool with
  | error cause => exact ⟨rfl, h⟩
  | ok l => exact ⟨rfl, r.carryOut_congr f l h tool safeZ⟩

end Rectangle

end Toolpath
