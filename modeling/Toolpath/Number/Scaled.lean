import Toolpath.Number.Binary64

/-!
# Floats by scaling

A fast way from digits to a float: as many of the digits as sixty-four bits hold are taken as a
whole number, and that number is scaled by powers of ten in floating arithmetic. Each of the few
operations rounds, so the float comes close to the nearest one and is not always that one;
`Decimal.toFloat` is the way that always finds it.

## Sections

* the leading digits: a digit that does not fit is left out, and the power of ten makes up for it
* the scaling, which ends because each division by the greatest power takes its exponent away
-/

namespace Toolpath

/-- Digits that fit sixty-four bits, and the power of ten they have to be multiplied by. -/
structure Scaled where
  significand : Nat
  exponent : Int
  deriving DecidableEq, Repr

namespace Scaled

/-! ## Leading digits -/

/-- A whole part, behind digits already taken. Once a digit does not fit, it and all others of the
whole part only count. -/
def ofWhole (taken : Nat) : List Char → Scaled
  | [] => ⟨taken, 0⟩
  | c :: rest =>
    if taken * 10 + Digits.digit c < UInt64.size then ofWhole (taken * 10 + Digits.digit c) rest
    else ⟨taken, rest.length + 1⟩

/-- A fraction behind a whole part. It is read as far as its digits fit. -/
def withFraction (s : Scaled) : List Char → Scaled
  | [] => s
  | c :: rest =>
    let n := s.significand * 10 + Digits.digit c
    if n < UInt64.size then withFraction ⟨n, s.exponent - 1⟩ rest else s

/-- The leading digits of a whole part and a fraction, with a power of ten on top. -/
def ofParts (whole fraction : List Char) (exponent : Int) : Scaled :=
  let s := (ofWhole 0 whole).withFraction fraction
  ⟨s.significand, s.exponent + exponent⟩

/-! ## Scaling -/

/-- The exponent of the greatest power of ten that is a float. -/
def greatestPower : Nat := 308

/-- The float nearest to a power of ten. -/
def power (e : Nat) : Float := Binary64.nearest false (Nat.pow 10 e) 1

/-- A float times a power of ten; nothing if that is too great to be a float. -/
def multiply? (x : Float) (e : Nat) : Option Float :=
  if x == 0 then some x
  else if greatestPower < e then none
  else if (x * power e).isInf then none
  else some (x * power e)

/-- A float divided by a power of ten, in steps of the greatest power. -/
def divide (x : Float) (e : Nat) : Float :=
  if e ≤ greatestPower then x / power e
  else if x == 0 then x
  else divide (x / power greatestPower) (e - greatestPower)
termination_by e
decreasing_by
  unfold greatestPower at *
  omega

/-- The float, unless it is too great to be one. -/
def toFloat? (s : Scaled) : Option Float :=
  match s.exponent with
  | .ofNat e => multiply? (Binary64.nearest false s.significand 1) e
  | .negSucc e => some (divide (Binary64.nearest false s.significand 1) (e + 1))

end Scaled

end Toolpath
