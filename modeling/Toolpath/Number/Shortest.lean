import Toolpath.Number.Decimal

/-!
# Shortest digits

The fewest digits that read back as the same float. All reals between the midpoints to a float's two
neighbours read as that float, the midpoints themselves if its mantissa is even. The powers of ten
make ever finer grids on the line; the first grid with a point in that interval decides how many
digits are written, and of two points on it the nearer one is taken.

## Sections

* the interval around a float
* the grids, from coarse to fine
* formats: how digits become text
-/

namespace Toolpath

/-- What happens when two candidates are equally near. -/
inductive Tie where
  | up
  | toEven
  deriving DecidableEq, Repr

namespace Shortest

/-! ## The interval around a float -/

/-- A float's value and the ends of the interval that reads as it, in units of a quarter of its last
place. Below a power of two the floats lie twice as close. -/
structure Interval where
  low : Nat
  value : Nat
  high : Nat
  /-- The ends themselves read as the float. -/
  closed : Bool
  /-- The exponent of the unit. -/
  exponent : Int

/-- The interval of the float `m * 2 ^ e`. -/
def interval (m : Nat) (e : Int) : Interval where
  low := if m = Binary64.hiddenBit ∧ Binary64.leastExponent < e then 4 * m - 1 else 4 * m - 2
  value := 4 * m
  high := 4 * m + 2
  closed := m % 2 = 0
  exponent := e - 2

/-! ## The grids -/

/-- `2 ^ e / 10 ^ p` as a numerator and a denominator. -/
def ratio (e p : Int) : Nat × Nat :=
  (Nat.pow 2 e.toNat * Nat.pow 10 (-p).toNat, Nat.pow 2 (-e).toNat * Nat.pow 10 p.toNat)

/-- The point of the grid of `10 ^ p` to write for an interval, if the grid has one in it. -/
def onGrid? (tie : Tie) (i : Interval) (p : Int) : Option Nat :=
  let (n, d) := ratio i.exponent p
  let inside (c : Nat) : Bool :=
    if i.closed then i.low * n ≤ c * d && c * d ≤ i.high * n
    else i.low * n < c * d && c * d < i.high * n
  let below := i.value * n / d
  let twice := 2 * (i.value * n % d)
  let above := below + 1
  let preferBelow := twice < d || (twice == d && tie == .toEven && below % 2 == 0)
  if inside below && (preferBelow || !inside above) then some below
  else if inside above then some above
  else none

/-- An exponent whose power of ten lies above the float `m * 2 ^ e`, by less than three steps. -/
def coarsest (m : Nat) (e : Int) : Int :=
  (((m.log2 : Int) + 1 + e) * 30103).fdiv 100000 + 1

/-- The digits and the decimal exponent of the float `m * 2 ^ e`. Twenty grids below the coarsest
one the points lie closer than the floats. -/
def digits (tie : Tie) (m : Nat) (e : Int) : Nat × Int :=
  let i := interval m e
  let top := coarsest m e
  ((List.range 24).findSome? fun k : Nat =>
    (onGrid? tie i (top - k)).map fun d => (d, top - (k : Int))).getD (0, 0)

end Shortest

/-! ## Formats -/

/-- How shortest digits are set out. -/
structure NumberFormat where
  tie : Tie
  /-- Whole numbers end in `.0`. -/
  pointZero : Bool
  /-- The decimal exponents written without an exponent part; all if there is no bound. -/
  positional : Option (Int × Int)

namespace NumberFormat

/-- Numbers in messages: never an exponent, nothing behind a whole number. -/
def message : NumberFormat := ⟨.up, false, none⟩

/-- Numbers in JSON data: an exponent from `1e+16` upwards and below `1e-5`. -/
def json : NumberFormat := ⟨.toEven, true, some (-5, 15)⟩

/-- Numbers in TOML data: never an exponent, always a point. -/
def toml : NumberFormat := ⟨.up, true, none⟩

/-- Digits times a power of ten, written without an exponent part. -/
def pointed (pointZero : Bool) (ds : List Char) (exponent : Int) : List Char :=
  match exponent with
  | .ofNat e => ds ++ List.replicate e '0' ++ if pointZero then ['.', '0'] else []
  | .negSucc e =>
    let places := e + 1
    if places < ds.length then
      ds.take (ds.length - places) ++ '.' :: ds.drop (ds.length - places)
    else '0' :: '.' :: List.replicate (places - ds.length) '0' ++ ds

/-- Digits with one of them before the point, and an exponent. -/
def scientific (ds : List Char) (exponent : Int) : List Char :=
  let mantissa := match ds with
    | [] => []
    | [d] => [d]
    | d :: rest => d :: '.' :: rest
  let sign := if exponent < 0 then '-' else '+'
  mantissa ++ 'e' :: sign :: Digits.ofNat exponent.natAbs

/-- The text of digits and a decimal exponent. -/
def set (format : NumberFormat) (digits : Nat) (exponent : Int) : List Char :=
  let ds := Digits.ofNat digits
  let leading := exponent + ds.length - 1
  match format.positional with
  | none => pointed format.pointZero ds exponent
  | some (least, greatest) =>
    if least ≤ leading ∧ leading ≤ greatest then pointed format.pointZero ds exponent
    else scientific ds leading

/-- The text of a float. -/
def text (format : NumberFormat) (x : Float) : List Char :=
  match Binary64.ofFloat x with
  | .nan => Exact.nanText
  | .infinite negative => Exact.infiniteText negative
  | .finite negative 0 _ => Exact.sign negative ++ format.set 0 0
  | .finite negative m e =>
    let (d, p) := Shortest.digits format.tie m e
    Exact.sign negative ++ format.set d p

end NumberFormat

end Toolpath
