import Toolpath.Scalar
import Toolpath.Number.Shortest

/-!
# Rejections

Why a cutting command is not carried out. A rejection names the command and a cause; a cause is
either about the geometry of the shape (it has no size) or about one parameter (missing, not finite,
out of range). The wording is made from the cause, in one place.
-/

namespace Toolpath

open Scalar

/-- The kinds of cutting command. -/
inductive CommandKind where
  | chordArc
  | bearingCircle
  | centerCircle
  | arc
  | rectangle
  deriving DecidableEq, Repr

namespace CommandKind

/-- The two letters that name a command. -/
def code : CommandKind → String
  | .chordArc => "CA"
  | .bearingCircle => "CC"
  | .centerCircle => "CP"
  | .arc => "CG"
  | .rectangle => "CR"

end CommandKind

/-- The most passes that one pocket may take. -/
def maxPasses : Nat := 10000

/-- Why a command is rejected. -/
inductive Cause (α : Type) where
  | missing (parameter : String)
  | notFinite (parameter : String) (value : α)
  | noRepetitions
  | zeroProportion (parameter : String)
  | stepNotPositive
  | tooManyPasses (step count : α)
  | zeroHeight
  | radiusNotPositive (radius : α)
  | diameterNotPositive (diameter : α)
  | compensatedRadiusNotPositive (radius : α)
  | compensatedLengthNotPositive (parameter : String) (length : α)
  | centerOnStart
  deriving DecidableEq, Repr

/-- A command that is not carried out, and why. -/
structure Rejection (α : Type) where
  command : CommandKind
  cause : Cause α
  deriving DecidableEq, Repr

namespace Cause

variable {α : Type}

/-- The parameter that is at fault; none if the shape as a whole has no size. -/
def parameter? : Cause α → Option String
  | .missing parameter | .notFinite parameter _ | .zeroProportion parameter => some parameter
  | .noRepetitions => some "repetitions"
  | .stepNotPositive | .tooManyPasses _ _ => some "step_over"
  | _ => none

/-- The shape as a whole is at fault. -/
def isGeometry (c : Cause α) : Bool := c.parameter?.isNone

end Cause

/-! ## Checks -/

section Checks

variable {α : Type} [Scalar α]

/-- A number that has to be finite. -/
def requireFinite (parameter : String) (value : α) : Except (Cause α) α :=
  if isFinite value then .ok value else .error (.notFinite parameter value)

/-- A number that has to be there and finite. -/
def requirePresent (parameter : String) : Option α → Except (Cause α) α
  | some value => requireFinite parameter value
  | none => .error (.missing parameter)

/-- How many whole steps fit into a span; more than a pocket may take are refused. -/
def passCount (span step : α) : Except (Cause α) Nat :=
  if 0 < step then
    let count := floor (abs span / step)
    if count ≤ ofNat maxPasses then .ok (toNat count) else .error (.tooManyPasses step count)
  else .error .stepNotPositive

end Checks

/-! ## Wording -/

namespace Cause

/-- A number as messages show it. -/
def number (x : Float) : String := String.ofList (NumberFormat.message.text x)

/-- What is wrong. -/
def reason : Cause Float → String
  | .missing _ => "is required"
  | .notFinite _ value => s!"must be finite, got {number value}"
  | .noRepetitions => "must be at least 1"
  | .zeroProportion _ => "must not be zero"
  | .stepNotPositive => "must be > 0"
  | .tooManyPasses step count =>
    s!"{number step} needs {number count} pocket passes, limit is {maxPasses}"
  | .zeroHeight => "height is zero"
  | .radiusNotPositive radius => s!"radius must be positive, got {number radius}"
  | .diameterNotPositive diameter => s!"diameter must be positive, got {number diameter}"
  | .compensatedRadiusNotPositive radius =>
    s!"compensated radius must be positive, got {number radius}"
  | .compensatedLengthNotPositive parameter length =>
    s!"compensated {parameter} must be positive, got {number length}"
  | .centerOnStart => "center offset is zero"

end Cause

/-- The text of a rejection of a parameter. -/
def parameterMessage (parameter command reason : String) : String :=
  s!"Invalid parameter '{parameter}' in {command}: {reason}"

/-- The text of a rejection. -/
def Rejection.message (r : Rejection Float) : String :=
  match r.cause.parameter? with
  | some parameter => parameterMessage parameter r.command.code r.cause.reason
  | none => s!"Invalid geometry in {r.command.code}: {r.cause.reason}"

end Toolpath
