import Toolpath.Arc.Chord
import Toolpath.Arc.Circle
import Toolpath.Rectangle

/-!
# Jobs

A job is a start, transforms and a list of commands. A run carries the commands out one after the
other on one machine. A rejected command is reported and the next one goes on from where the machine
is, unless the run is to stop at the first rejection.
-/

namespace Toolpath

open Scalar

/-- A cutting command. -/
inductive Command (α : Type) where
  | chordArc (a : ChordArc α)
  | bearingCircle (c : BearingCircle α)
  | centerCircle (c : CenterCircle α)
  | arc (a : RelativeArc α)
  | rectangle (r : Rectangle α)
  deriving DecidableEq, Repr

/-- A start, transforms and commands. -/
structure Job (α : Type) where
  start : Position α
  transforms : Transforms α
  commands : List (Command α)
  deriving DecidableEq, Repr

/-- A command of a run that was rejected. -/
structure Failure (α : Type) where
  /-- The command's place in the job, from zero. -/
  index : Nat
  command : CommandKind
  rejection : Rejection α
  deriving DecidableEq, Repr

/-- What became of the commands of a run. -/
structure Report (α : Type) where
  completed : Nat
  failures : Array (Failure α)
  /-- Stopped before the last command. -/
  aborted : Bool
  deriving DecidableEq, Repr

/-- A machine and the report on the commands it has carried out. -/
structure Run (α : Type) where
  machine : Machine α
  report : Report α
  deriving DecidableEq, Repr

namespace Report

variable {α : Type}

/-- The report on no command. -/
def empty : Report α := ⟨0, #[], false⟩

/-- No command was rejected. -/
def isSuccess (r : Report α) : Bool := r.failures.isEmpty

end Report

variable {α : Type} [Scalar α]

namespace Command

omit [Scalar α] in
/-- The kind of a command. -/
def kind : Command α → CommandKind
  | .chordArc _ => .chordArc
  | .bearingCircle _ => .bearingCircle
  | .centerCircle _ => .centerCircle
  | .arc _ => .arc
  | .rectangle _ => .rectangle

/-- Carry out a command. -/
def execute (tool : Tool α) : Command α → Machine α → Outcome α (Rejection α)
  | .chordArc a, m => a.execute tool m
  | .bearingCircle c, m => c.execute tool m
  | .centerCircle c, m => c.execute tool m
  | .arc a, m => a.execute tool m
  | .rectangle r, m => r.execute tool m

end Command

namespace Run

/-- Carry out commands, the first of which has a given place in the job. -/
def commands (tool : Tool α) (stopOnError : Bool) (r : Run α) :
    Nat → List (Command α) → Run α
  | _, [] => r
  | index, c :: rest =>
    let outcome := c.execute tool r.machine
    match outcome.rejection with
    | none =>
      commands tool stopOnError
        ⟨outcome.machine, { r.report with completed := r.report.completed + 1 }⟩ (index + 1) rest
    | some rejection =>
      let failures := r.report.failures.push ⟨index, c.kind, rejection⟩
      if stopOnError then
        ⟨outcome.machine, { r.report with failures := failures, aborted := !rest.isEmpty }⟩
      else
        commands tool stopOnError
          ⟨outcome.machine, { r.report with failures := failures }⟩ (index + 1) rest

end Run

/-- Carry out commands on a machine. -/
def Machine.run (m : Machine α) (tool : Tool α) (stopOnError : Bool) (cs : List (Command α)) :
    Run α :=
  Run.commands tool stopOnError ⟨m, .empty⟩ 0 cs

/-- Carry out a job on a fresh machine. -/
def Job.run (job : Job α) (tool : Tool α) (feeds : Feeds α) (stopOnError : Bool) : Run α :=
  (Machine.atRest job.start feeds job.transforms).run tool stopOnError job.commands

/-- The text of a failure. -/
def Failure.message (f : Failure Float) : String :=
  s!"command #{f.index} ({f.command.code}) failed: {f.rejection.message}"

end Toolpath
