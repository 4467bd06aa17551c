/-!
# Decimal digits

Natural numbers as digits, most significant first. `ofNat` writes no leading zero; `padded` writes a
given number of digits, which is what stands behind a decimal point. `value` reads digits back.

`padded` halves its width, so a fraction of many thousand digits costs a few long divisions and not
one for each digit.
-/

namespace Toolpath.Digits

/-- The character of one digit. -/
def char (d : Nat) : Char := Char.ofNat (48 + d)

/-- A decimal digit; no other script's digits count. -/
def isDigit (c : Char) : Bool := 48 ≤ c.toNat && c.toNat ≤ 57

/-- The value of one digit. -/
def digit (c : Char) : Nat := c.toNat - 48

theorem isDigit_char {d : Nat} (h : d < 10) : isDigit (char d) = true := by
  have hall : ∀ e ∈ List.range 10, isDigit (char e) = true := by decide
  exact hall d (List.mem_range.mpr h)

theorem digit_char {d : Nat} (h : d < 10) : digit (char d) = d := by
  have hall : ∀ e ∈ List.range 10, digit (char e) = e := by decide
  exact hall d (List.mem_range.mpr h)

/-! ## Writing -/

/-- The digits of `n`, put in front of `rest`. -/
def prepend (n : Nat) (rest : List Char) : List Char :=
  if n < 10 then char n :: rest else prepend (n / 10) (char (n % 10) :: rest)
termination_by n
decreasing_by exact Nat.div_lt_self (by omega) (by omega)

/-- The digits of a natural number, without leading zeros. -/
def ofNat (n : Nat) : List Char := prepend n []

/-- The last `width` digits of a natural number, with leading zeros. -/
def padded (width n : Nat) : List Char :=
  if width = 0 then []
  else if width = 1 then [char (n % 10)]
  else
    let low := width - width / 2
    padded (width / 2) (n / Nat.pow 10 low) ++ padded low (n % Nat.pow 10 low)
termination_by width
decreasing_by all_goals omega

/-! ## Reading -/

/-- The number that a run of digits denotes, after a number already read. -/
def valueFrom (n : Nat) : List Char → Nat
  | [] => n
  | c :: rest => valueFrom (n * 10 + digit c) rest

/-- The number that a run of digits denotes. -/
def value (cs : List Char) : Nat := valueFrom 0 cs

theorem valueFrom_append (n : Nat) (a b : List Char) :
    valueFrom n (a ++ b) = valueFrom (valueFrom n a) b := by
  induction a generalizing n with
  | nil => rfl
  | cons c rest ih => exact ih _

/-- The digits that a text begins with, and what follows them. -/
def span (cs : List Char) : List Char × List Char := (cs.takeWhile isDigit, cs.dropWhile isDigit)

theorem span_append (cs : List Char) : (span cs).1 ++ (span cs).2 = cs :=
  List.takeWhile_append_dropWhile

end Toolpath.Digits
