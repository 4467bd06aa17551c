import Toolpath.Number.Digits

/-!
# Exact values and fixed places

A number that is to be printed is taken as what it denotes: a sign and a quotient of natural
numbers, an infinity, or no number at all. The sign is kept apart from the quotient because a zero
can carry one.

`fixed` writes a value with a given number of decimal places: the nearest such decimal, a value half
way between two of them going to the even one.
-/

namespace Toolpath

/-- What a number denotes. -/
inductive Exact where
  | nan
  | infinite (negative : Bool)
  | finite (negative : Bool) (numerator denominator : Nat)
  deriving DecidableEq, Repr

/-- Numbers whose value is known exactly. -/
class ExactValue (α : Type) where
  /-- What the number denotes. -/
  exact : α → Exact

instance : ExactValue Rat := ⟨fun q => .finite (q.num < 0) q.num.natAbs q.den⟩

/-- The whole number nearest to `n / d`, a half going to the even neighbour. -/
def roundHalfEven (n d : Nat) : Nat :=
  if 2 * (n % d) < d ∨ 2 * (n % d) = d ∧ n / d % 2 = 0 then n / d else n / d + 1

namespace Exact

/-- A minus sign, or nothing. -/
def sign (negative : Bool) : List Char := if negative then ['-'] else []

/-- The text of a value that is not finite. -/
def nanText : List Char := ['N', 'a', 'N']

/-- The text of an infinity. -/
def infiniteText (negative : Bool) : List Char := sign negative ++ ['i', 'n', 'f']

/-- The decimal `scaled / 10 ^ places`, written with exactly `places` decimals. -/
def decimalText (places scaled : Nat) : List Char :=
  Digits.ofNat (scaled / Nat.pow 10 places) ++
    if places = 0 then [] else '.' :: Digits.padded places (scaled % Nat.pow 10 places)

/-- How many units of the last of `places` decimals a magnitude has, to the nearest. -/
def scaled (places numerator denominator : Nat) : Nat :=
  roundHalfEven (numerator * Nat.pow 10 places) denominator

/-- A value with a given number of decimals. The sign stays, also on what rounds to zero. -/
def fixed (places : Nat) : Exact → List Char
  | .nan => nanText
  | .infinite negative => infiniteText negative
  | .finite negative n d => sign negative ++ decimalText places (scaled places n d)

/-- A value with a given number of decimals, where zero has no sign. -/
def fixedUnsignedZero (places : Nat) : Exact → List Char
  | .finite negative n d =>
    sign (negative && scaled places n d != 0) ++ decimalText places (scaled places n d)
  | e => fixed places e

end Exact

end Toolpath
