import Toolpath.Move
import Toolpath.Number.Exact

/-!
# G-code

Moves as text, one line each. Coordinates have a chosen number of decimals and zero has no sign;
feeds have one decimal. Lines can be numbered, from ten on in steps of ten; the numbers are 32 bits
wide.

A number cannot be written with more than 65535 decimals, so a page with more is `TooPrecise`, but
only once it has a coordinate to write.
-/

namespace Toolpath

namespace Gcode

/-- How a page of G-code is written. -/
structure Style where
  /-- Decimals of a coordinate. -/
  decimals : Nat := 4
  numbered : Bool := false
  deriving DecidableEq, Repr

/-- More decimals than a number can be written with. -/
structure TooPrecise where
  decimals : Nat
  deriving DecidableEq, Repr

/-- The most decimals that a number can be written with. -/
def maxDecimals : Nat := 65535

/-- The number of the first line. -/
def firstLineNumber : UInt32 := 10

/-- From one line number to the next. -/
def lineNumberStep : UInt32 := 10

variable {α : Type} [ExactValue α]

/-- A letter with its coordinate behind a blank, or nothing. -/
def coordinate (style : Style) (letter : Char) : Option α → Except TooPrecise (List Char)
  | none => .ok []
  | some v =>
    if maxDecimals < style.decimals then .error ⟨style.decimals⟩
    else .ok (' ' :: letter :: (ExactValue.exact v).fixedUnsignedZero style.decimals)

/-- The feed behind a blank, or nothing. -/
def feed : Option α → List Char
  | none => []
  | some v => ' ' :: 'F' :: (ExactValue.exact v).fixed 1

/-- A move as a line, without a number. -/
def lineChars (style : Style) (d : Move α) : Except TooPrecise (List Char) := do
  let x ← coordinate style 'X' d.x
  let y ← coordinate style 'Y' d.y
  let z ← coordinate style 'Z' d.z
  let i ← coordinate style 'I' d.i
  let j ← coordinate style 'J' d.j
  return d.kind.word ++ x ++ y ++ z ++ i ++ j ++ feed d.feed

/-- A line behind its number. -/
def numberedLine (number : UInt32) (body : List Char) : List Char :=
  'N' :: Digits.ofNat number.toNat ++ ' ' :: body

/-- The number of a line, counted from zero. -/
def lineNumber (index : Nat) : UInt32 := firstLineNumber + lineNumberStep * UInt32.ofNat index

/-- The lines of a page. -/
def linesChars (style : Style) (ds : List (Move α)) : Except TooPrecise (List (List Char)) :=
  (ds.mapM (lineChars style)).map fun bodies =>
    if style.numbered then bodies.mapIdx fun index body => numberedLine (lineNumber index) body
    else bodies

/-- A move as a line. -/
def line (style : Style) (d : Move α) : Except TooPrecise String :=
  (lineChars style d).map String.ofList

/-- Moves as lines. -/
def lines (style : Style) (ds : List (Move α)) : Except TooPrecise (List String) :=
  (linesChars style ds).map (·.map String.ofList)

/-- Moves as a page, every line ended by a line feed. -/
def page (style : Style) (ds : List (Move α)) : Except TooPrecise String :=
  (linesChars style ds).map fun ls => String.ofList (ls.flatMap (· ++ ['\n']))

end Gcode

end Toolpath
