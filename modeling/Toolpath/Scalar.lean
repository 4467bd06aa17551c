/-!
# Scalars

The arithmetic that paths are computed in. Points, arcs, commands and whole jobs are stated over a
type `α` with `Scalar α`, so the same definitions run over binary64 numbers and can be studied over
any other arithmetic, the real numbers among them.

Comparisons are those of the type: over binary64 numbers a comparison with a NaN is false and `0`
equals `-0`, which is why a rule such as "must be positive" is always written as the comparison that
has to hold.

## Sections

* the class, with the operations that a path needs
* numerals and decidable comparisons, in scope inside the namespace only
* the tolerance within which two coordinates count as the same
-/

namespace Toolpath

/-- The arithmetic in which a path is computed. -/
class Scalar (α : Type) extends Add α, Sub α, Mul α, Div α, Neg α, LT α, LE α, BEq α where
  /-- The scalar that a natural number names. -/
  ofNat : Nat → α
  /-- The scalar `m / 10 ^ e` if the flag is set, and `m * 10 ^ e` otherwise. -/
  ofScientific : Nat → Bool → Nat → α
  /-- Order tests can be run. -/
  decideLt : ∀ a b : α, Decidable (a < b)
  /-- Order tests can be run. -/
  decideLe : ∀ a b : α, Decidable (a ≤ b)
  /-- Half a turn in radians. -/
  pi : α
  /-- The magnitude. -/
  abs : α → α
  /-- The lesser of two; of a number and no number, the number. -/
  min : α → α → α
  /-- The greater of two; of a number and no number, the number. -/
  max : α → α → α
  /-- The greatest whole scalar that is not greater. -/
  floor : α → α
  /-- The least whole scalar that is not less. -/
  ceil : α → α
  /-- The natural number that a scalar reaches, counted from zero; zero for what is no number. -/
  toNat : α → Nat
  /-- The length of the diagonal of a rectangle with these sides. -/
  hypot : α → α → α
  /-- Sine of an angle in radians. -/
  sin : α → α
  /-- Cosine of an angle in radians. -/
  cos : α → α
  /-- `atan2 y x` is the angle of the direction `(x, y)`, in `[-π, π]`. -/
  atan2 : α → α → α
  /-- Neither an infinity nor a NaN. -/
  isFinite : α → Bool

namespace Scalar

variable {α : Type} [Scalar α]

/-! ## Numerals and comparisons -/

/-- Numerals name scalars; a type's own numerals go first. -/
scoped instance (priority := low) instOfNatScalar (n : Nat) : OfNat α n := ⟨Scalar.ofNat n⟩

/-- Decimal numerals name scalars; a type's own numerals go first. -/
scoped instance (priority := low) instOfScientificScalar : OfScientific α := ⟨Scalar.ofScientific⟩

/-- Whether one scalar is below another can be decided. -/
scoped instance (priority := low) instDecidableLt (a b : α) : Decidable (a < b) := decideLt a b

/-- Whether one scalar is at most another can be decided. -/
scoped instance (priority := low) instDecidableLe (a b : α) : Decidable (a ≤ b) := decideLe a b

/-! ## Angles and tolerance -/

/-- A whole turn in radians. -/
def turn : α := 2 * pi

/-- Degrees in radians. -/
def radians (degrees : α) : α := degrees * (pi / 180)

/-- Coordinates closer than this count as the same. -/
def tolerance : α := 1e-6

/-- Two coordinates agree within the tolerance. -/
def Near (a b : α) : Prop := abs (a - b) ≤ tolerance

instance (a b : α) : Decidable (Near a b) := decideLe _ _

end Scalar

end Toolpath
