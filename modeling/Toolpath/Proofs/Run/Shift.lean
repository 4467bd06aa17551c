import Toolpath.Proofs.Arc.Shift
import Toolpath.Proofs.Rectangle.Shift
import Toolpath.Proofs.Run

/-!
# Shifting a job

A command that names no place in the plane is cut wherever the tool happens to be. So a job of such
commands can be moved by moving its start: the same commands are rejected, each for the same cause,
and the moves are the same but for the places they lead to. Commands may name depths, ways and
angles, and an arc its center, which is seen from its start.

* `Command.Unplaced` — a command that names no place
* `Command.execute_shift` — it does the same at another place
* `Run.commands_shift` — and so do all commands of a run
* `Job.run_shift` — a job is moved by moving its start
-/

namespace Toolpath

open Scalar RealScalar

/-- A command that names no place in the plane. -/
def Command.Unplaced {α : Type} : Command α → Prop
  | .chordArc _ | .bearingCircle _ => True
  | .centerCircle c => c.centerX = none ∧ c.centerY = none
  | .arc a => a.endX = none ∧ a.endY = none
  | .rectangle r => r.centerX = none ∧ r.centerY = none

/-! ## The orders of commands -/

section

variable (v : Offset ℝ) (start : Point ℝ) (tool : Tool ℝ)

theorem ChordArc.order_shift (a : ChordArc ℝ) :
    a.order (start.shift v) tool = (a.order start tool).map (·.shift v) := by
  refine bind_eq_map fun radius => ?_
  simp only [start.shift_comm v]
  rfl

/-- An arc without an end ends where it starts. -/
theorem RelativeArc.order_shift {a : RelativeArc ℝ} (hx : a.endX = none) (hy : a.endY = none) :
    a.order (start.shift v) = (a.order start).map (·.shift v) := by
  unfold order
  rw [hx, hy]
  exact bind_eq_map fun x => bind_eq_map fun y => rfl

theorem BearingCircle.order_shift (c : BearingCircle ℝ) :
    c.order (start.shift v) tool = (c.order start tool).map (·.shift v) := by
  refine bind_eq_map fun radius => bind_eq_map fun angles => ?_
  simp only [start.shift_comm v, Point.shift_comm _ v, ← apply_ite (Point.shift · v)]
  rfl

/-- A circle around the place of the tool starts at a way from there. -/
theorem CenterCircle.order_shift {c : CenterCircle ℝ} (hx : c.centerX = none)
    (hy : c.centerY = none) :
    c.order (start.shift v) tool =
      (c.order start tool).map fun eo => (eo.1.shift v, eo.2.shift v) := by
  unfold order
  rw [hx, hy]
  refine bind_eq_map fun radius => bind_eq_map fun angles => ?_
  simp only [requireFinite_real, pure_bind, Option.getD_none]
  have hcenter : (⟨(start.shift v).x, (start.shift v).y⟩ : Point ℝ) = start.shift v := rfl
  simp only [hcenter, start.shift_comm v, Point.shift_wayTo_shift, ← apply_ite (Point.shift · v)]
  rfl

end

/-! ## Commands -/

section

variable (v : Offset ℝ) (tool : Tool ℝ) (m : Machine ℝ)

theorem CenterCircle.execute_shift {c : CenterCircle ℝ} (hx : c.centerX = none)
    (hy : c.centerY = none) : c.execute tool (m.shift v) = (c.execute tool m).shift v := by
  unfold execute
  rw [Machine.shift_position, Position.shift_point, c.order_shift v _ tool hx hy]
  cases c.order m.position.point tool with
  | error cause => rfl
  | ok eo =>
    obtain ⟨entry, o⟩ := eo
    simp only [Except.map, ArcOrder.check_shift, Position.shift_z, Machine.approach_shift]
    cases o.check tool with
    | error cause => rfl
    | ok u => exact o.execute_shift v tool _ .centerCircle

/-- **A command that names no place does the same elsewhere**, or is rejected for the same cause. -/
theorem Command.execute_shift {c : Command ℝ} (h : c.Unplaced) :
    c.execute tool (m.shift v) = (c.execute tool m).shift v := by
  have hpoint : (m.shift v).position.point = m.position.point.shift v := rfl
  cases c with
  | chordArc a =>
    show ArcOrder.executeMade .chordArc tool (a.order _ tool) (m.shift v) = _
    rw [hpoint, a.order_shift]
    exact ArcOrder.executeMade_shift v tool m .chordArc _
  | bearingCircle c =>
    show ArcOrder.executeMade .bearingCircle tool (c.order _ tool) (m.shift v) = _
    rw [hpoint, c.order_shift]
    exact ArcOrder.executeMade_shift v tool m .bearingCircle _
  | centerCircle c => exact CenterCircle.execute_shift v tool m h.1 h.2
  | arc a =>
    show ArcOrder.executeMade .arc tool (a.order _) (m.shift v) = _
    rw [hpoint, a.order_shift v _ h.1 h.2]
    exact ArcOrder.executeMade_shift v tool m .arc _
  | rectangle r => exact Rectangle.execute_shift tool v m h.1 h.2

end

/-! ## Runs -/

section

variable {α : Type} [Scalar α]

/-- The same run at another place; the report is the same. -/
def Run.shift (r : Run α) (v : Offset α) : Run α := ⟨r.machine.shift v, r.report⟩

/-- The same job from another start. -/
def Job.shift (job : Job α) (v : Offset α) : Job α := { job with start := job.start.shift v }

end

/-- **Commands that name no place are run elsewhere**, and reported on in the same way. -/
theorem Run.commands_shift {cs : List (Command ℝ)} (h : ∀ c ∈ cs, c.Unplaced) (v : Offset ℝ)
    (tool : Tool ℝ) (stopOnError : Bool) (r : Run ℝ) (index : ℕ) :
    (r.shift v).commands tool stopOnError index cs =
      (r.commands tool stopOnError index cs).shift v := by
  induction cs generalizing r index with
  | nil => rfl
  | cons c rest ih =>
    obtain ⟨hc, hrest⟩ := List.forall_mem_cons.mp h
    have hout : c.execute tool (r.shift v).machine = (c.execute tool r.machine).shift v :=
      Command.execute_shift v tool r.machine hc
    -- a cause says nothing of places, so it is the same
    have hrejection : (c.execute tool (r.shift v).machine).rejection =
        (c.execute tool r.machine).rejection := by
      rw [hout]
      rfl
    cases hr : (c.execute tool r.machine).rejection with
    | none =>
      rw [commands_of_accepted hr, commands_of_accepted (hrejection.trans hr), hout]
      exact ih hrest (r.completing (c.execute tool r.machine).machine) (index + 1)
    | some e =>
      cases stopOnError with
      | false =>
        rw [commands_of_rejected hr, commands_of_rejected (hrejection.trans hr), hout]
        exact ih hrest (r.failing (c.execute tool r.machine).machine ⟨index, c.kind, e⟩) (index + 1)
      | true =>
        rw [commands_of_last hr, commands_of_last (hrejection.trans hr), hout]
        rfl

theorem Machine.shifted_run {cs : List (Command ℝ)} (h : ∀ c ∈ cs, c.Unplaced) (v : Offset ℝ)
    (tool : Tool ℝ) (stopOnError : Bool) (m : Machine ℝ) :
    (m.shift v).run tool stopOnError cs = (m.run tool stopOnError cs).shift v :=
  Run.commands_shift h v tool stopOnError ⟨m, .empty⟩ 0

/-- **A job is moved by moving its start.** If none of its commands names a place, the same ones
are rejected for the same causes, and the queue holds the same moves to places that are moved as
well. -/
theorem Job.run_shift {job : Job ℝ} (h : ∀ c ∈ job.commands, c.Unplaced) (v : Offset ℝ)
    (tool : Tool ℝ) (feeds : Feeds ℝ) (stopOnError : Bool) :
    ((job.shift v).run tool feeds stopOnError).report = (job.run tool feeds stopOnError).report ∧
      ((job.shift v).run tool feeds stopOnError).machine.queue.toList =
        (job.run tool feeds stopOnError).machine.queue.toList.map (·.shift v) ∧
      (job.shift v).run tool feeds stopOnError = (job.run tool feeds stopOnError).shift v := by
  have hrun : (job.shift v).run tool feeds stopOnError =
      (job.run tool feeds stopOnError).shift v := by
    unfold run shift
    rw [Machine.atRest_shift]
    exact Machine.shifted_run h v tool stopOnError _
  rw [hrun]
  exact ⟨rfl, Array.toList_map, rfl⟩

/-- An arc over a chord, a circle through the place of the tool and one around it, a full circle as
a pocket, and a turned rectangle whose corner is there; the last command is rejected. -/
noncomputable def Job.everywhere : Job ℝ :=
  let once : Passes ℝ := ⟨-1, 1, false, false⟩
  let circle : Circle ℝ := ⟨some 2, .inside, .clockwise, 0, 90, once, ⟨1, 1⟩, .spiral⟩
  ⟨⟨0, 0, 0⟩, .none,
    [.chordArc ⟨some 2, some 1, .outside, .clockwise, none, once, ⟨1, 1⟩, none⟩,
      .bearingCircle ⟨circle⟩, .centerCircle ⟨circle, none, none⟩,
      .arc ⟨none, none, some 1, some 0, .counterclockwise, once, ⟨2, 1⟩, .pocket⟩,
      .rectangle ⟨some 2, some 1, .on, .clockwise, .corner .fourth, once, .pocketOutsideIn, 30, .z,
        true, none, none⟩,
      .rectangle ⟨none, some 1, .on, .clockwise, .center, once, .profile, 0, .z, false, none,
        none⟩]⟩

theorem Job.everywhere_run_shift :
    (∀ c ∈ everywhere.commands, c.Unplaced) ∧
      ((everywhere.shift ⟨3, -4⟩).run .standard .standard false).report =
        (everywhere.run .standard .standard false).report ∧
      ((everywhere.shift ⟨3, -4⟩).run .standard .standard false).machine.queue.toList =
        (everywhere.run .standard .standard false).machine.queue.toList.map (·.shift ⟨3, -4⟩) ∧
      (everywhere.shift ⟨3, -4⟩).run .standard .standard false =
        (everywhere.run .standard .standard false).shift ⟨3, -4⟩ := by
  have hplace : ∀ c ∈ everywhere.commands, c.Unplaced := by
    simp [everywhere, Command.Unplaced]
  exact ⟨hplace, run_shift hplace ⟨3, -4⟩ .standard .standard false⟩

end Toolpath
