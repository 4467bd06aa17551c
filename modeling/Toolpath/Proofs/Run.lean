import Toolpath.Job

/-!
# The steps of a run

A run carries its commands out one after the other. What it does with one of them depends on whether
the command is accepted: one equation for each case.

* `Run.commands_of_accepted` — an accepted command counts as completed
* `Run.commands_of_rejected` — a rejected one is listed, and the run goes on with the next
* `Run.commands_of_last` — or the run stops there
-/

namespace Toolpath

namespace Run

variable {α : Type} [Scalar α] {tool : Tool α} {r : Run α} {c : Command α}

omit [Scalar α] in
/-- The run after an accepted command that leaves the machine in a state. -/
def completing (r : Run α) (m : Machine α) : Run α :=
  ⟨m, { r.report with completed := r.report.completed + 1 }⟩

omit [Scalar α] in
/-- The run after a rejected command. -/
def failing (r : Run α) (m : Machine α) (f : Failure α) : Run α :=
  ⟨m, { r.report with failures := r.report.failures.push f }⟩

omit [Scalar α] in
@[simp] theorem machine_completing (r : Run α) (m : Machine α) : (r.completing m).machine = m := rfl

omit [Scalar α] in
@[simp] theorem machine_failing (r : Run α) (m : Machine α) (f : Failure α) :
    (r.failing m f).machine = m := rfl

theorem commands_of_accepted (h : (c.execute tool r.machine).rejection = none)
    (stopOnError : Bool) (index : Nat) (rest : List (Command α)) :
    r.commands tool stopOnError index (c :: rest) =
      (r.completing (c.execute tool r.machine).machine).commands tool stopOnError (index + 1)
        rest := by
  simp only [commands, h]
  rfl

theorem commands_of_rejected {e : Rejection α}
    (h : (c.execute tool r.machine).rejection = some e) (index : Nat) (rest : List (Command α)) :
    r.commands tool false index (c :: rest) =
      (r.failing (c.execute tool r.machine).machine ⟨index, c.kind, e⟩).commands tool false
        (index + 1) rest := by
  simp only [commands, h]
  rfl

theorem commands_of_last {e : Rejection α} (h : (c.execute tool r.machine).rejection = some e)
    (index : Nat) (rest : List (Command α)) :
    r.commands tool true index (c :: rest) =
      ⟨(c.execute tool r.machine).machine,
        { r.report with
          failures := r.report.failures.push ⟨index, c.kind, e⟩
          aborted := !rest.isEmpty }⟩ := by
  simp only [commands, h]
  rfl

end Run

end Toolpath
