import Toolpath.Number.Binary64

/-!
# Decimals

A decimal is a sign, a whole mantissa and a power of ten: the value that a numeral in a text denotes
before it becomes a number of some arithmetic. `OfDecimal` says how that last step is taken; it is
exact for rational numbers and goes to the nearest float for floats.

## Sections

* decimals and what they become
* numerals without an exponent, as they stand behind the letters of a motion line
* numerals with fraction and exponent, as they stand in data
-/

namespace Toolpath

/-- The value `mantissa * 10 ^ exponent`, with a sign. -/
structure Decimal where
  negative : Bool
  mantissa : Nat
  exponent : Int
  deriving DecidableEq, Repr

/-- Numbers that a decimal can be read as. -/
class OfDecimal (α : Type) where
  /-- The number that a decimal becomes. -/
  ofDecimal : Decimal → α

namespace Decimal

/-- The exact value. -/
def toRat (d : Decimal) : Rat :=
  (if d.negative then -1 else 1) * d.mantissa * (10 : Rat) ^ d.exponent

/-- The nearest float. Decimals beyond every float are settled by their count of digits, so that no
huge power of ten is ever formed. -/
def toFloat (d : Decimal) : Float :=
  let magnitude := (Digits.ofNat d.mantissa).length + d.exponent
  if d.mantissa = 0 ∨ magnitude < -330 then Binary64.nearest d.negative 0 1
  else if 310 < magnitude then Binary64.nearest d.negative (Nat.pow 10 310) 1
  else match d.exponent with
    | .ofNat e => Binary64.nearest d.negative (d.mantissa * Nat.pow 10 e) 1
    | .negSucc e => Binary64.nearest d.negative d.mantissa (Nat.pow 10 (e + 1))

/-- The decimal of a whole part and a fraction, with a power of ten on top. -/
def ofParts (negative : Bool) (whole fraction : List Char) (exponent : Int) : Decimal :=
  ⟨negative, Digits.value (whole ++ fraction), exponent - fraction.length⟩

end Decimal

instance : OfDecimal Float := ⟨Decimal.toFloat⟩

instance : OfDecimal Rat := ⟨Decimal.toRat⟩

namespace Decimal

/-! ## Numerals without an exponent -/

/-- An optional sign; the rest follows. -/
def splitSign : List Char → Bool × List Char
  | '-' :: rest => (true, rest)
  | '+' :: rest => (false, rest)
  | cs => (false, cs)

/-- Digits with at most one point among them. -/
def splitPoint (cs : List Char) : Option (List Char × List Char) :=
  match Digits.span cs with
  | (whole, []) => some (whole, [])
  | (whole, '.' :: rest) => if rest.all Digits.isDigit then some (whole, rest) else none
  | _ => none

/-- A numeral is an optional sign and digits with at most one point, at least one digit in all. -/
def ofNumeral? (cs : List Char) : Option Decimal :=
  let (negative, body) := splitSign cs
  match splitPoint body with
  | some (whole, fraction) =>
    if whole.isEmpty && fraction.isEmpty then none else some (ofParts negative whole fraction 0)
  | none => none

end Decimal

end Toolpath
