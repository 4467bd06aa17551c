import Toolpath.Gcode
import Toolpath.Job.Record
import Toolpath.Settings.File

/-!
# Compiling a job file

From a job file, and a settings file if one is named, to a page of G-code and a report on the
commands. Settings are looked at first. Rejected commands do not keep the page from being written.
-/

namespace Toolpath

/-- What is compiled, and how. -/
structure Compilation where
  job : String
  settings : Option String
  style : Gcode.Style
  stopOnError : Bool
  deriving DecidableEq, Repr

/-- A page of G-code, and the report on the commands it was made from. -/
structure Compiled where
  page : String
  report : Report Float

/-- Why a job file has no page. -/
inductive CompileError where
  | settings (path : String) (e : SettingsError)
  | unreadable (path : String) (e : StoreError)
  | notAJob (path : String) (e : Json.ReadError)
  | tooPrecise (decimals : Nat)
  deriving DecidableEq, Repr

/-- The text of an error, without its cause. -/
def CompileError.message : CompileError → String
  | .settings path _ => s!"failed to load config {path}"
  | .unreadable path _ => s!"failed to read job {path}"
  | .notAJob path _ => s!"failed to parse job {path}"
  | .tooPrecise decimals => s!"cannot write {decimals} decimals"

namespace Compilation

/-- The settings to compile with. -/
def loadSettings (c : Compilation) (source : TextSource) : Except CompileError (Settings Float) :=
  match c.settings with
  | none => .ok .standard
  | some path =>
    match Settings.load source path with
    | .ok s => .ok s
    | .error e => .error (.settings path e)

/-- The job to compile. -/
def loadJob (c : Compilation) (source : TextSource) : Except CompileError (Job Float) :=
  match source c.job with
  | .error e => .error (.unreadable c.job e)
  | .ok text =>
    match Job.read text with
    | .ok job => .ok job
    | .error e => .error (.notAJob c.job e)

/-- The page and the report of a run. -/
def write (c : Compilation) (r : Run Float) : Except CompileError Compiled :=
  match Gcode.page c.style r.machine.queue.toList with
  | .ok page => .ok ⟨page, r.report⟩
  | .error e => .error (.tooPrecise e.decimals)

/-- Compile a job file. -/
def compile (c : Compilation) (source : TextSource) : Except CompileError Compiled := do
  let settings ← c.loadSettings source
  let job ← c.loadJob source
  c.write (job.run settings.tool settings.feeds c.stopOnError)

end Compilation

end Toolpath
