import Toolpath.Machine
import Toolpath.Number.Shortest

/-!
# Settings

What a job is cut with: the tool and the speeds. Settings are checked as a whole before they are
used or kept. The checks go through the settings in a fixed order, and the first one that is out of
its range is the one that is reported.
-/

namespace Toolpath

open Scalar

/-- The tool and the speeds. -/
structure Settings (α : Type) where
  tool : Tool α
  feeds : Feeds α
  deriving DecidableEq, Repr

/-- A setting that is out of its range. -/
inductive SettingFault where
  | cutterDiameter
  | pocketOverlap
  | safeZ
  | arcStep
  | feedXY
  | feedZ
  deriving DecidableEq, Repr

namespace SettingFault

/-- Where the setting stands. -/
def key : SettingFault → String
  | .cutterDiameter => "tool.cutter_diameter"
  | .pocketOverlap => "tool.pocket_overlap"
  | .safeZ => "tool.safe_z"
  | .arcStep => "tool.arc_step"
  | .feedXY => "feeds.xy"
  | .feedZ => "feeds.z"

/-- The range that the setting has to be in. -/
def range : SettingFault → String
  | .cutterDiameter | .feedXY | .feedZ => "must be > 0"
  | .pocketOverlap => "must be in [0, 100)"
  | .safeZ => "must be finite"
  | .arcStep => "must be in (0, pi/2]"

/-- The text of a fault. -/
def message (f : SettingFault) : String := s!"Invalid setting '{f.key}': {f.range}"

end SettingFault

section Checks

variable {α : Type} [Scalar α]

/-- A finite length or speed above zero. -/
def PositiveFinite (x : α) : Prop := isFinite x = true ∧ 0 < x

instance (x : α) : Decidable (PositiveFinite x) := inferInstanceAs (Decidable (_ ∧ _))

/-- The first setting of a tool that is out of its range. -/
def Tool.fault? (t : Tool α) : Option SettingFault :=
  if ¬PositiveFinite t.cutterDiameter then some .cutterDiameter
  else if ¬(0 ≤ t.pocketOverlap ∧ t.pocketOverlap < 100) then some .pocketOverlap
  else if ¬isFinite t.safeZ then some .safeZ
  else if ¬(0 < t.arcStep ∧ t.arcStep ≤ pi / 2) then some .arcStep
  else none

/-- The first speed that is out of its range. -/
def Feeds.fault? (f : Feeds α) : Option SettingFault :=
  if ¬PositiveFinite f.xy then some .feedXY
  else if ¬PositiveFinite f.z then some .feedZ
  else none

namespace Settings

/-- The settings in use when none are given. -/
def standard : Settings α := ⟨.standard, .standard⟩

/-- The first setting that is out of its range, the tool before the speeds. -/
def fault? (s : Settings α) : Option SettingFault := s.tool.fault?.or s.feeds.fault?

/-- Every setting is in its range. -/
def Valid (s : Settings α) : Prop := s.fault? = none

instance (s : Settings α) : Decidable s.Valid := inferInstanceAs (Decidable (_ = _))

end Settings

end Checks

/-- A tool on one line. -/
def Tool.text (t : Tool Float) : String :=
  let fixed (places : Nat) (x : Float) : String :=
    String.ofList ((ExactValue.exact x).fixed places)
  let overlap := String.ofList (NumberFormat.message.text t.pocketOverlap)
  s!"cutter {fixed 4 t.cutterDiameter} overlap {overlap}% " ++
    s!"safe Z {fixed 4 t.safeZ} step {fixed 3 t.arcStep} rad"

end Toolpath
