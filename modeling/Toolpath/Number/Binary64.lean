import Toolpath.Number.Exact

/-!
# Binary64 numbers

The bridge between `Float` and exact values. `Binary64.ofFloat` takes a float apart into sign,
mantissa and exponent; `nearest` finds the float closest to a quotient, a tie going to the even
mantissa, and is what reads a decimal.
-/

namespace Toolpath

/-- A float taken apart. -/
inductive Binary64 where
  | nan
  | infinite (negative : Bool)
  /-- The value `mantissa * 2 ^ exponent`, with a sign. -/
  | finite (negative : Bool) (mantissa : Nat) (exponent : Int)
  deriving DecidableEq, Repr

namespace Binary64

/-- The exponent of the last place of the smallest floats. -/
def leastExponent : Int := -1074

/-- The bit of a mantissa that stands above the fifty-two written ones. -/
def hiddenBit : Nat := Nat.pow 2 52

/-- The exponent field that infinities and NaNs have. -/
def greatestField : Nat := 2047

/-- The bit of the sign. -/
def signBit : Nat := (greatestField + 1) * hiddenBit

/-- The parts of a float: one sign bit, eleven exponent bits, fifty-two mantissa bits. -/
def ofFloat (x : Float) : Binary64 :=
  let bits : Nat := x.toBits.toNat
  let negative := decide (signBit ≤ bits)
  let field : Nat := bits / hiddenBit % (greatestField + 1)
  let fraction : Nat := bits % hiddenBit
  if field = greatestField then
    if fraction = 0 then .infinite negative else .nan
  else if field = 0 then .finite negative fraction leastExponent
  else .finite negative (hiddenBit + fraction) ((field : Int) - 1075)

/-- What the parts denote. -/
def exact : Binary64 → Exact
  | .nan => .nan
  | .infinite negative => .infinite negative
  | .finite negative m (.ofNat e) => .finite negative (m * Nat.pow 2 e) 1
  | .finite negative m (.negSucc e) => .finite negative m (Nat.pow 2 (e + 1))

/-! ## The nearest float -/

/-- `n / d` divided by `2 ^ e`, as a numerator and a denominator. -/
def shifted (n d : Nat) : Int → Nat × Nat
  | .ofNat e => (n, d * Nat.pow 2 e)
  | .negSucc e => (n * Nat.pow 2 (e + 1), d)

/-- The exponent at which `n / d` has a mantissa of fifty-three bits, or the least one there is. -/
def exponentFor (n d : Nat) : Int :=
  let guess := max ((n.log2 : Int) - d.log2 - 53) leastExponent
  let (n', d') := shifted n d guess
  if n' / d' < 2 * hiddenBit then guess else guess + 1

/-- The bit pattern, without sign, of the float nearest to `n / d`. A mantissa that rounds up to the
next power of two carries into the exponent field; above the greatest float stands infinity. -/
def nearestBits (n d : Nat) : Nat :=
  let e := exponentFor n d
  let (n', d') := shifted n d e
  let m := roundHalfEven n' d'
  let bits := if m < hiddenBit then m else m - hiddenBit + (e + 1075).toNat * hiddenBit
  min bits (greatestField * hiddenBit)

/-- The float nearest to `n / d`, with a sign. -/
def nearest (negative : Bool) (n d : Nat) : Float :=
  Float.ofBits (UInt64.ofNat ((if negative then signBit else 0) + nearestBits n d))

end Binary64

instance : ExactValue Float := ⟨fun x => (Binary64.ofFloat x).exact⟩

end Toolpath
