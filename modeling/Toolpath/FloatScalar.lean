import Toolpath.Scalar

/-!
# Floats as scalars

The arithmetic that jobs are run in. The order is that of binary64: no comparison with a NaN holds,
and the lesser of a number and a NaN is the number.
-/

namespace Toolpath.FloatScalar

/-- The lesser of two floats. -/
def lesser (a b : Float) : Float :=
  if a < b then a else if b ≤ a then b else if a == a then a else b

/-- The greater of two floats. -/
def greater (a b : Float) : Float :=
  if b < a then a else if a ≤ b then b else if a == a then a else b

/-- The root of the sum of two squares of moderate size, `b ≤ a`. What the rounding of the squares
cost is found from the root itself and taken off, so that the last place is right. -/
def correctedRoot (a b : Float) : Float :=
  let h := Float.sqrt (a * a + b * b)
  let (t, u) :=
    if h ≤ 2.0 * b then
      let d := h - b
      (a * (2.0 * d - a), (d - 2.0 * (a - b)) * d)
    else
      let d := h - a
      (2.0 * d * (a - 2.0 * b), (4.0 * d - b) * b + d * d)
  h - (t + u) / (2.0 * h)

/-- The length of a diagonal. An infinite side makes it infinite, also next to a NaN; sides whose
squares would leave the range are scaled first; a side too short to count is only added. -/
def hypot (x y : Float) : Float :=
  if x.isInf || y.isInf then 1.0 / 0.0
  else if x.isNaN || y.isNaN then x + y
  else
    let a := greater x.abs y.abs
    let b := lesser x.abs y.abs
    if b ≤ a * Float.scaleB 1.0 (-54) then a + b
    else if Float.scaleB 1.0 511 < a then
      Float.scaleB (correctedRoot (Float.scaleB a (-600)) (Float.scaleB b (-600))) 600
    else if b < Float.scaleB 1.0 (-459) then
      Float.scaleB (correctedRoot (Float.scaleB a 600) (Float.scaleB b 600)) (-600)
    else correctedRoot a b

/-- The whole part of a float; zero for what is negative or no number. -/
def toNat (x : Float) : Nat := x.toUInt64.toNat

instance : Scalar Float where
  ofNat n := Float.ofNat n
  ofScientific := Float.ofScientific
  decideLt a b := inferInstanceAs (Decidable (a < b))
  decideLe a b := inferInstanceAs (Decidable (a ≤ b))
  pi := 3.141592653589793
  abs := Float.abs
  min := lesser
  max := greater
  floor := Float.floor
  ceil := Float.ceil
  toNat := toNat
  hypot := hypot
  sin := Float.sin
  cos := Float.cos
  atan2 := Float.atan2
  isFinite := Float.isFinite

end Toolpath.FloatScalar
