import Toolpath.Proofs.Number.Binary64

/-!
# The nearest float

A decimal is read as a float, and no float is nearer to the decimal.

* `Binary64.exponentFor_spec` — the exponent leaves a mantissa of fifty-three bits
* `Binary64.nearest_spec` — no float is nearer than the one that is found
* `Decimal.toFloat_spec` — so it is with decimals of every size
-/

namespace Toolpath

namespace Binary64

/-! ## The exponent -/

theorem shifted_spec (n : ℕ) {d : ℕ} (hd : 0 < d) (e : ℤ) :
    0 < (shifted n d e).2 ∧ ((shifted n d e).1 / (shifted n d e).2 : ℚ) = n / d / 2 ^ e := by
  have hd' : (d : ℚ) ≠ 0 := Nat.cast_ne_zero.mpr hd.ne'
  cases e with
  | ofNat e =>
    refine ⟨Nat.mul_pos hd (Nat.pow_pos two_pos), ?_⟩
    show (n : ℚ) / ((d * 2 ^ e : ℕ) : ℚ) = n / d / 2 ^ ((e : ℕ) : ℤ)
    rw [zpow_natCast, div_div]
    push_cast
    rfl
  | negSucc e =>
    refine ⟨hd, ?_⟩
    show ((n * 2 ^ (e + 1) : ℕ) : ℚ) / (d : ℚ) = n / d / 2 ^ (Int.negSucc e)
    rw [zpow_negSucc, div_inv_eq_mul]
    push_cast
    ring

theorem log2_bounds {n : ℕ} (hn : 0 < n) :
    (2 : ℚ) ^ (n.log2 : ℤ) ≤ n ∧ (n : ℚ) < 2 ^ ((n.log2 : ℤ) + 1) := by
  have hle : 2 ^ n.log2 ≤ n := Nat.log2_self_le hn.ne'
  have hlt : n < 2 ^ (n.log2 + 1) := Nat.lt_log2_self
  constructor
  · rw [zpow_natCast]
    exact_mod_cast hle
  · rw [← Nat.cast_succ, zpow_natCast]
    exact_mod_cast hlt

/-- A quotient has as many bits as the logarithms differ by, or one more. -/
theorem log2_quotient {n d : ℕ} (hn : 0 < n) (hd : 0 < d) :
    (2 : ℚ) ^ ((n.log2 : ℤ) - d.log2 - 1) ≤ n / d ∧
      (n / d : ℚ) < 2 ^ ((n.log2 : ℤ) - d.log2 + 1) := by
  have hd' : (0 : ℚ) < d := Nat.cast_pos.mpr hd
  obtain ⟨hn_le, hn_lt⟩ := log2_bounds hn
  obtain ⟨hd_le, hd_lt⟩ := log2_bounds hd
  generalize (n.log2 : ℤ) = a at *
  generalize (d.log2 : ℤ) = b at *
  constructor
  · rw [le_div_iff₀ hd']
    calc (2 : ℚ) ^ (a - b - 1) * d ≤ 2 ^ (a - b - 1) * 2 ^ (b + 1) :=
          mul_le_mul_of_nonneg_left hd_lt.le (zpow_pos two_pos _).le
      _ = 2 ^ a := by
        rw [← zpow_add₀ two_ne_zero]
        congr 1
        ring
      _ ≤ n := hn_le
  · rw [div_lt_iff₀ hd']
    calc (n : ℚ) < 2 ^ (a + 1) := hn_lt
      _ = 2 ^ (a - b + 1) * 2 ^ b := by
        rw [← zpow_add₀ two_ne_zero]
        congr 1
        ring
      _ ≤ 2 ^ (a - b + 1) * d := mul_le_mul_of_nonneg_left hd_le (zpow_pos two_pos _).le

/-- **The exponent** leaves a mantissa of fifty-three bits, unless it is the least one. -/
theorem exponentFor_spec {n d : ℕ} (hn : 0 < n) (hd : 0 < d) :
    leastExponent ≤ exponentFor n d ∧ (n / d : ℚ) < 2 ^ (exponentFor n d + 53) ∧
      (exponentFor n d = leastExponent ∨ (2 : ℚ) ^ (exponentFor n d + 52) ≤ n / d) := by
  obtain ⟨hlow, hhigh⟩ := log2_quotient hn hd
  let a : ℤ := n.log2
  let b : ℤ := d.log2
  let guess : ℤ := max (a - b - 53) leastExponent
  obtain ⟨hpos, hquotient⟩ := shifted_spec n hd guess
  have hchoice : exponentFor n d =
      if (shifted n d guess).1 / (shifted n d guess).2 < 2 * hiddenBit then guess else guess + 1 :=
    rfl
  have hfits : (shifted n d guess).1 / (shifted n d guess).2 < 2 * hiddenBit ↔
      (n / d : ℚ) < 2 ^ (guess + 53) := by
    rw [Nat.div_lt_iff_lt_mul hpos, zpow_add₀ two_ne_zero, mul_comm _ ((2 : ℚ) ^ (53 : ℤ)),
      ← div_lt_iff₀ (zpow_pos two_pos guess), ← hquotient, div_lt_iff₀ (Nat.cast_pos.mpr hpos)]
    have hbit : ((2 * hiddenBit : ℕ) : ℚ) = 2 ^ (53 : ℤ) := by
      norm_num [hiddenBit]
    rw [← hbit]
    exact_mod_cast Iff.rfl
  have hleast : leastExponent ≤ guess := le_max_right _ _
  by_cases h : (n / d : ℚ) < 2 ^ (guess + 53)
  · rw [hchoice, if_pos (hfits.mpr h)]
    refine ⟨hleast, h, ?_⟩
    rcases max_choice (a - b - 53) leastExponent with hmax | hmax
    · right
      have hguess : guess + 52 = a - b - 1 := by
        show max (a - b - 53) leastExponent + 52 = _
        omega
      rwa [hguess]
    · exact Or.inl hmax
  · have hguess : a - b + 1 ≤ guess + 54 := by
      have := le_max_left (a - b - 53) leastExponent
      show _ ≤ max (a - b - 53) leastExponent + 54
      omega
    rw [hchoice, if_neg (mt hfits.mp h)]
    refine ⟨by omega, ?_, Or.inr ?_⟩
    · rw [add_assoc]
      exact hhigh.trans_le (zpow_le_zpow_right₀ one_le_two hguess)
    · rw [add_assoc]
      exact not_lt.mp h

/-- No other exponent does. -/
theorem exponentFor_eq {n d : ℕ} (hn : 0 < n) (hd : 0 < d) {e : ℤ} (hleast : leastExponent ≤ e)
    (hlt : (n / d : ℚ) < 2 ^ (e + 53)) (hle : e = leastExponent ∨ (2 : ℚ) ^ (e + 52) ≤ n / d) :
    exponentFor n d = e := by
  obtain ⟨hleast', hlt', hle'⟩ := exponentFor_spec hn hd
  rcases lt_trichotomy (exponentFor n d) e with hless | heq | hgreater
  · have hreach := hle.resolve_left (hleast'.trans_lt hless).ne'
    have hgrow : (2 : ℚ) ^ (exponentFor n d + 53) ≤ 2 ^ (e + 52) :=
      zpow_le_zpow_right₀ one_le_two (by omega)
    linarith
  · exact heq
  · have hreach := hle'.resolve_left (hleast.trans_lt hgreater).ne'
    have hgrow : (2 : ℚ) ^ (e + 53) ≤ 2 ^ (exponentFor n d + 52) :=
      zpow_le_zpow_right₀ one_le_two (by omega)
    linarith

/-! ## The nearest float -/

/-- From here on values are too great for a float. -/
def overflow : ℚ := (2 ^ 53 - 1 / 2) * 2 ^ (971 : ℤ)

/-- The mantissa of the float nearest to a quotient. -/
def mantissaFor (n d : ℕ) : ℕ :=
  roundHalfEven (shifted n d (exponentFor n d)).1 (shifted n d (exponentFor n d)).2

theorem nearestBits_eq (n d : ℕ) :
    nearestBits n d =
      min (packed (mantissaFor n d) (exponentFor n d)) (greatestField * hiddenBit) := rfl

theorem hiddenBit_cast : ((hiddenBit : ℕ) : ℚ) = 2 ^ 52 := by
  norm_num [hiddenBit]

section

variable {n d : ℕ} (hn : 0 < n) (hd : 0 < d)

include hd in
theorem mantissaFor_near :
    |(n / d / 2 ^ exponentFor n d : ℚ) - mantissaFor n d| ≤ 1 / 2 := by
  obtain ⟨hpos, hquotient⟩ := shifted_spec n hd (exponentFor n d)
  rw [← hquotient]
  exact (roundHalfEven_near _ hpos).1

include hd in
theorem mantissaFor_eq {k : ℕ} (hnear : |(n / d / 2 ^ exponentFor n d : ℚ) - k| ≤ 1 / 2)
    (htie : |(n / d / 2 ^ exponentFor n d : ℚ) - k| = 1 / 2 → Even k) : mantissaFor n d = k := by
  obtain ⟨hpos, hquotient⟩ := shifted_spec n hd (exponentFor n d)
  rw [← hquotient] at hnear htie
  exact roundHalfEven_eq hpos hnear htie

include hd in
/-- Among the multiples of the unit that the exponent gives, the mantissa is the nearest one. -/
theorem mantissaFor_nearest (k : ℤ) :
    |(n / d : ℚ) - mantissaFor n d * 2 ^ exponentFor n d| ≤
      |(n / d : ℚ) - k * 2 ^ exponentFor n d| := by
  have h2 : (0 : ℚ) < 2 ^ exponentFor n d := zpow_pos two_pos _
  have hvalue : (n / d : ℚ) = n / d / 2 ^ exponentFor n d * 2 ^ exponentFor n d :=
    (div_mul_cancel₀ _ h2.ne').symm
  have hround : |(n / d / 2 ^ exponentFor n d : ℚ) - mantissaFor n d| ≤
      |(n / d / 2 ^ exponentFor n d : ℚ) - k| := by
    obtain ⟨hpos, hquotient⟩ := shifted_spec n hd (exponentFor n d)
    rw [← hquotient]
    exact roundHalfEven_nearest _ hpos k
  rw [hvalue, ← sub_mul, ← sub_mul, abs_mul, abs_mul]
  exact mul_le_mul_of_nonneg_right hround (abs_nonneg _)

include hn hd

theorem scaled_lt : (n / d / 2 ^ exponentFor n d : ℚ) < 2 ^ 53 := by
  obtain ⟨-, hlt, -⟩ := exponentFor_spec hn hd
  rw [zpow_add₀ two_ne_zero, mul_comm] at hlt
  exact_mod_cast (div_lt_iff₀ (zpow_pos two_pos _)).mpr hlt

/-- An exponent that is not the least one leaves a mantissa with its hidden bit. -/
theorem le_scaled (h : exponentFor n d ≠ leastExponent) :
    2 ^ 52 ≤ (n / d / 2 ^ exponentFor n d : ℚ) := by
  obtain ⟨-, -, hnormal⟩ := exponentFor_spec hn hd
  have hle := hnormal.resolve_left h
  rw [zpow_add₀ two_ne_zero, mul_comm] at hle
  exact_mod_cast (le_div_iff₀ (zpow_pos two_pos _)).mpr hle

theorem mantissaFor_le : mantissaFor n d ≤ 2 * hiddenBit := by
  have hnear := (abs_le.mp (mantissaFor_near (n := n) hd)).1
  have htop := scaled_lt hn hd
  have hlt : (mantissaFor n d : ℚ) < ((2 * hiddenBit : ℕ) : ℚ) + 1 := by
    push_cast
    rw [hiddenBit_cast]
    linarith
  exact Nat.lt_succ_iff.mp (by exact_mod_cast hlt)

theorem exponentFor_of_mantissaFor_lt (h : mantissaFor n d < hiddenBit) :
    exponentFor n d = leastExponent := by
  by_contra hne
  have hnear := (abs_le.mp (mantissaFor_near (n := n) hd)).2
  have hbit := le_scaled hn hd hne
  have hlow : (mantissaFor n d : ℚ) + 1 ≤ hiddenBit := by exact_mod_cast h
  rw [hiddenBit_cast] at hlow
  linarith

theorem exponentFor_of_lt_overflow (hmax : (n / d : ℚ) < overflow) :
    exponentFor n d < 971 ∨ exponentFor n d = 971 ∧ mantissaFor n d < 2 * hiddenBit := by
  have hvalue : (n / d : ℚ) = n / d / 2 ^ exponentFor n d * 2 ^ exponentFor n d :=
    (div_mul_cancel₀ _ (zpow_pos two_pos _).ne').symm
  have h971 : (0 : ℚ) < 2 ^ (971 : ℤ) := zpow_pos two_pos _
  rcases lt_trichotomy (exponentFor n d) 971 with hlow | heq | hgreat
  · exact Or.inl hlow
  · refine Or.inr ⟨heq, ?_⟩
    have hnear := (abs_le.mp (mantissaFor_near (n := n) hd)).1
    rw [hvalue, heq, overflow] at hmax
    have hless := lt_of_mul_lt_mul_right hmax h971.le
    have hlt : (mantissaFor n d : ℚ) < ((2 * hiddenBit : ℕ) : ℚ) := by
      push_cast
      rw [hiddenBit_cast, ← heq] at *
      linarith
    exact_mod_cast hlt
  · have hne : exponentFor n d ≠ leastExponent := by
      intro heq
      rw [heq, leastExponent] at hgreat
      omega
    have hbit := le_scaled hn hd hne
    have hgrow : (2 : ℚ) * 2 ^ (971 : ℤ) ≤ 2 ^ exponentFor n d := by
      rw [mul_comm, ← zpow_add_one₀ two_ne_zero]
      exact zpow_le_zpow_right₀ one_le_two (by omega)
    rw [hvalue, overflow] at hmax
    generalize (2 : ℚ) ^ (971 : ℤ) = g at *
    have hover : (2 : ℚ) ^ 52 * (2 * g) ≤
        n / d / 2 ^ exponentFor n d * 2 ^ exponentFor n d :=
      mul_le_mul hbit hgrow (by linarith) (by linarith)
    linarith

/-- A float with a smaller exponent is not nearer than the least mantissa with a hidden bit. -/
theorem le_of_exponent_lt {m : ℕ} {e : ℤ} (h : Representable m e) (he : e < exponentFor n d) :
    (m : ℚ) * 2 ^ e ≤ hiddenBit * 2 ^ exponentFor n d ∧
      (hiddenBit : ℚ) * 2 ^ exponentFor n d ≤ n / d := by
  obtain ⟨hm, hleast⟩ := h
  have hm' : (m : ℚ) ≤ 2 * hiddenBit := by exact_mod_cast hm.le
  have hstep : (2 : ℚ) * 2 ^ e ≤ 2 ^ exponentFor n d := by
    rw [mul_comm, ← zpow_add_one₀ two_ne_zero]
    exact zpow_le_zpow_right₀ one_le_two (by omega)
  constructor
  · calc (m : ℚ) * 2 ^ e ≤ 2 * hiddenBit * 2 ^ e :=
          mul_le_mul_of_nonneg_right hm' (zpow_pos two_pos _).le
      _ = hiddenBit * (2 * 2 ^ e) := by ring
      _ ≤ hiddenBit * 2 ^ exponentFor n d := mul_le_mul_of_nonneg_left hstep (Nat.cast_nonneg _)
  · rw [hiddenBit_cast, ← le_div_iff₀ (zpow_pos two_pos _)]
    exact le_scaled hn hd (by omega)

end

theorem nearestBits_zero {d : ℕ} (hd : 0 < d) : nearestBits 0 d = 0 := by
  have hzero : ∀ e, (shifted 0 d e).1 = 0 * (shifted 0 d e).2 := by
    intro e
    cases e with
    | ofNat e => exact (zero_mul _).symm
    | negSucc e => exact (zero_mul _).trans (zero_mul _).symm
  have hmantissa : mantissaFor 0 d = 0 := by
    rw [mantissaFor, hzero]
    exact roundHalfEven_mul 0 (shifted_spec 0 hd _).1
  rw [nearestBits_eq, hmantissa]
  rfl

/-- A float with a given sign, such that no other float is nearer to a magnitude. -/
def IsNearest (negative : Bool) (v : ℚ) (x : Float) : Prop :=
  ∃ m e, ofFloat x = .finite negative m e ∧
    ∀ (m' : ℕ) (e' : ℤ), Representable m' e' → |v - m * 2 ^ e| ≤ |v - m' * 2 ^ e'|

theorem ofFloat_nearest_zero (negative : Bool) {d : ℕ} (hd : 0 < d) :
    ofFloat (nearest negative 0 d) = .finite negative 0 leastExponent := by
  rw [nearest, nearestBits_zero hd, ofFloat_ofBits negative (by decide)]
  rfl

/-- **The nearest float** is found, if the value is not too great for one. -/
theorem nearest_spec (negative : Bool) {n d : ℕ} (hd : 0 < d) (hmax : (n / d : ℚ) < overflow) :
    IsNearest negative (n / d) (nearest negative n d) := by
  rcases Nat.eq_zero_or_pos n with rfl | hn
  · refine ⟨0, leastExponent, ofFloat_nearest_zero negative hd, fun m' e' _ => ?_⟩
    simp only [Nat.cast_zero, zero_div, zero_mul, sub_zero, abs_zero]
    exact abs_nonneg _
  have hm := mantissaFor_le hn hd
  have hhigh := exponentFor_of_lt_overflow hn hd hmax
  obtain ⟨m, e, hparts, hvalue⟩ := ofFloat_packed negative hm (exponentFor_spec hn hd).1
    (exponentFor_of_mantissaFor_lt hn hd) hhigh
  refine ⟨m, e, ?_, fun m' e' h' => ?_⟩
  · rw [nearest, nearestBits_eq, Nat.min_eq_left (packed_lt hm hhigh).le]
    exact hparts
  rw [hvalue]
  rcases le_or_gt (exponentFor n d) e' with hcoarse | hfine
  · have hk : (m' : ℚ) * 2 ^ e' =
        ((m' * 2 ^ (e' - exponentFor n d).toNat : ℕ) : ℤ) * 2 ^ exponentFor n d := by
      have hsplit : e' = ((e' - exponentFor n d).toNat : ℤ) + exponentFor n d := by omega
      push_cast
      rw [mul_assoc, ← zpow_natCast, ← zpow_add₀ two_ne_zero, ← hsplit]
    rw [hk]
    exact mantissaFor_nearest hd _
  · obtain ⟨hbelow, hreach⟩ := le_of_exponent_lt hn hd h' hfine
    calc |(n / d : ℚ) - mantissaFor n d * 2 ^ exponentFor n d| ≤
          |(n / d : ℚ) - (hiddenBit : ℤ) * 2 ^ exponentFor n d| := mantissaFor_nearest hd _
      _ = n / d - hiddenBit * 2 ^ exponentFor n d := by
        push_cast
        exact abs_of_nonneg (sub_nonneg.mpr hreach)
      _ ≤ n / d - m' * 2 ^ e' := by linarith
      _ ≤ |(n / d : ℚ) - m' * 2 ^ e'| := le_abs_self _

/-- What is smaller than half the least float is nearest to zero. -/
theorem isNearest_zero (negative : Bool) {v : ℚ} (hv : 0 ≤ v)
    (hsmall : 2 * v ≤ 2 ^ leastExponent) : IsNearest negative v (nearest negative 0 1) := by
  refine ⟨0, leastExponent, ofFloat_nearest_zero negative one_pos, fun m e h => ?_⟩
  rw [Nat.cast_zero, zero_mul, sub_zero, abs_of_nonneg hv]
  rcases Nat.eq_zero_or_pos m with rfl | hm
  · rw [Nat.cast_zero, zero_mul, sub_zero]
    exact le_abs_self v
  · have hleast : (2 : ℚ) ^ leastExponent ≤ m * 2 ^ e := by
      have hone : (1 : ℚ) ≤ m := by exact_mod_cast hm
      have hgrow : (2 : ℚ) ^ leastExponent ≤ 2 ^ e := zpow_le_zpow_right₀ one_le_two h.2
      have hpos : (0 : ℚ) < 2 ^ e := zpow_pos two_pos e
      exact hgrow.trans (le_mul_of_one_le_left hpos.le hone)
    rw [abs_sub_comm]
    exact le_trans (by linarith) (le_abs_self _)

end Binary64

/-! ## Decimals -/

namespace Decimal

open Binary64

theorem two_mul_le_least : 2 * (10 : ℚ) ^ (-331 : ℤ) ≤ 2 ^ leastExponent := by
  have hpow : (2 : ℚ) ^ (13 * 82 + 9) ≤ 10 ^ (4 * 82 + 3) := by
    rw [pow_add, pow_mul, pow_add, pow_mul]
    exact mul_le_mul (pow_le_pow_left₀ (by norm_num) (by norm_num) 82) (by norm_num)
      (by norm_num) (by norm_num)
  rw [leastExponent, zpow_neg, zpow_neg, ← div_eq_mul_inv, ← one_div,
    div_le_div_iff₀ (zpow_pos (by norm_num) _) (zpow_pos two_pos _), one_mul, mul_comm]
  exact le_trans (pow_succ (2 : ℚ) 1074).symm.le hpow

theorem overflow_le : overflow * 10 ≤ (10 : ℚ) ^ (311 : ℤ) := by
  have hpow : (2 : ℚ) ^ (93 * 11 + 1) ≤ 10 ^ (28 * 11 + 1) := by
    rw [pow_add, pow_mul, pow_add, pow_mul]
    exact mul_le_mul (pow_le_pow_left₀ (by norm_num) (by norm_num) 11) (by norm_num)
      (by norm_num) (by norm_num)
  have hless : overflow ≤ 2 ^ (53 + 971) := by
    rw [pow_add]
    exact mul_le_mul_of_nonneg_right (by norm_num) (zpow_pos two_pos _).le
  have hten : (10 : ℚ) ^ (28 * 11 + 1) * 10 ≤ 10 ^ 311 := by
    rw [← pow_succ]
    exact pow_le_pow_right₀ (by norm_num) (by norm_num)
  calc overflow * 10 ≤ 10 ^ (28 * 11 + 1) * 10 :=
        mul_le_mul_of_nonneg_right (hless.trans hpow) (by norm_num)
    _ ≤ (10 : ℚ) ^ 311 := hten

theorem toFloat_eq (w : Decimal) :
    w.toFloat =
      if w.mantissa = 0 ∨ ((Digits.ofNat w.mantissa).length : ℤ) + w.exponent < -330 then
        nearest w.negative 0 1
      else if 310 < ((Digits.ofNat w.mantissa).length : ℤ) + w.exponent then
        nearest w.negative (Nat.pow 10 310) 1
      else match w.exponent with
        | .ofNat e => nearest w.negative (w.mantissa * Nat.pow 10 e) 1
        | .negSucc e => nearest w.negative w.mantissa (Nat.pow 10 (e + 1)) := rfl

/-- The size of a decimal, as its digits tell it. -/
theorem magnitude_bounds {w : Decimal} (h : 0 < w.mantissa) :
    (w.mantissa * 10 ^ w.exponent : ℚ) < 10 ^ ((Digits.ofNat w.mantissa).length + w.exponent) ∧
      (10 : ℚ) ^ ((Digits.ofNat w.mantissa).length + w.exponent) ≤
        w.mantissa * 10 ^ w.exponent * 10 := by
  have hten : (0 : ℚ) < 10 ^ w.exponent := zpow_pos (by norm_num) _
  have hhigh : (w.mantissa : ℚ) < 10 ^ (Digits.ofNat w.mantissa).length := by
    exact_mod_cast Digits.lt_pow_length_ofNat w.mantissa
  have hlow : (10 : ℚ) ^ (Digits.ofNat w.mantissa).length ≤ w.mantissa * 10 := by
    exact_mod_cast Digits.pow_length_ofNat_le h
  rw [zpow_add₀ (by norm_num), zpow_natCast]
  constructor
  · exact mul_lt_mul_of_pos_right hhigh hten
  · calc (10 : ℚ) ^ (Digits.ofNat w.mantissa).length * 10 ^ w.exponent ≤
          w.mantissa * 10 * 10 ^ w.exponent := mul_le_mul_of_nonneg_right hlow hten.le
      _ = w.mantissa * 10 ^ w.exponent * 10 := by ring

theorem two_mul_le_of_magnitude_lt {w : Decimal}
    (h : ((Digits.ofNat w.mantissa).length : ℤ) + w.exponent < -330) :
    2 * (w.mantissa * 10 ^ w.exponent : ℚ) ≤ 2 ^ leastExponent := by
  rcases Nat.eq_zero_or_pos w.mantissa with hzero | hpos
  · rw [hzero, Nat.cast_zero, zero_mul, mul_zero]
    exact (zpow_pos two_pos _).le
  · have hless := (magnitude_bounds hpos).1
    have hshrink : (10 : ℚ) ^ ((Digits.ofNat w.mantissa).length + w.exponent) ≤
        10 ^ (-331 : ℤ) := zpow_le_zpow_right₀ (by norm_num) (by omega)
    linarith [two_mul_le_least]

theorem magnitude_le_of_lt_overflow {w : Decimal} (hpos : 0 < w.mantissa)
    (hmax : (w.mantissa * 10 ^ w.exponent : ℚ) < overflow) :
    ((Digits.ofNat w.mantissa).length : ℤ) + w.exponent ≤ 310 := by
  by_contra hgreat
  have hmore := (magnitude_bounds hpos).2
  have hgrow : (10 : ℚ) ^ (311 : ℤ) ≤ 10 ^ ((Digits.ofNat w.mantissa).length + w.exponent) :=
    zpow_le_zpow_right₀ (by norm_num) (by omega)
  linarith [overflow_le]

/-- A decimal within the bounds of floats is read as a quotient. -/
theorem exists_toFloat_eq {w : Decimal}
    (hsmall : ¬(w.mantissa = 0 ∨ ((Digits.ofNat w.mantissa).length : ℤ) + w.exponent < -330))
    (hmax : (w.mantissa * 10 ^ w.exponent : ℚ) < overflow) :
    ∃ n d : ℕ, 0 < d ∧ (n / d : ℚ) = w.mantissa * 10 ^ w.exponent ∧
      w.toFloat = nearest w.negative n d := by
  have hpos : 0 < w.mantissa := Nat.pos_of_ne_zero fun hzero => hsmall (Or.inl hzero)
  have hfits := not_lt.mpr (magnitude_le_of_lt_overflow hpos hmax)
  rw [toFloat_eq, if_neg hsmall, if_neg hfits]
  cases w.exponent with
  | ofNat e =>
    refine ⟨w.mantissa * 10 ^ e, 1, one_pos, ?_, rfl⟩
    rw [Int.ofNat_eq_natCast, zpow_natCast]
    push_cast
    rw [div_one]
  | negSucc e =>
    refine ⟨w.mantissa, 10 ^ (e + 1), Nat.pow_pos (by norm_num), ?_, rfl⟩
    rw [zpow_negSucc, ← div_eq_mul_inv]
    push_cast
    rfl

/-- **A decimal is read as the nearest float**, if it is not too great for one. -/
theorem toFloat_spec {w : Decimal} (hmax : (w.mantissa * 10 ^ w.exponent : ℚ) < overflow) :
    IsNearest w.negative (w.mantissa * 10 ^ w.exponent) w.toFloat := by
  have hvalue : (0 : ℚ) ≤ w.mantissa * 10 ^ w.exponent :=
    mul_nonneg (Nat.cast_nonneg _) (zpow_pos (by norm_num) _).le
  by_cases hsmall : w.mantissa = 0 ∨
      ((Digits.ofNat w.mantissa).length : ℤ) + w.exponent < -330
  · rw [toFloat_eq, if_pos hsmall]
    refine isNearest_zero w.negative hvalue ?_
    rcases hsmall with hzero | hless
    · rw [hzero, Nat.cast_zero, zero_mul, mul_zero]
      exact (zpow_pos two_pos _).le
    · exact two_mul_le_of_magnitude_lt hless
  · obtain ⟨n, d, hd, hquotient, hread⟩ := exists_toFloat_eq hsmall hmax
    rw [hread, ← hquotient]
    exact nearest_spec w.negative hd (hquotient ▸ hmax)

end Decimal

/-! ## Printing what is read as a float -/

namespace Binary64

/-- What is printed for a finite float is not too great for one. -/
theorem printed_lt_overflow {m : ℕ} {e : ℤ} (h : Representable m e) (he : e ≤ 971) {v : ℚ}
    (hv : |(m * 2 ^ e : ℚ) - v| ≤ 1 / 2) : v < overflow := by
  have hm : (m : ℚ) + 1 ≤ 2 ^ 53 := by
    have hle : (m : ℚ) + 1 ≤ ((2 * hiddenBit : ℕ) : ℚ) := by exact_mod_cast h.1
    rw [Nat.cast_mul, hiddenBit_cast] at hle
    norm_num at hle ⊢
    exact hle
  have hgrow : (2 : ℚ) ^ e ≤ 2 ^ (971 : ℤ) := zpow_le_zpow_right₀ one_le_two he
  have hone : (1 : ℚ) < 2 ^ (971 : ℤ) := one_lt_zpow₀ one_lt_two (by norm_num)
  have hvalue : (m * 2 ^ e : ℚ) ≤ m * 2 ^ (971 : ℤ) :=
    mul_le_mul_of_nonneg_left hgrow (Nat.cast_nonneg m)
  have hnear := (abs_le.mp hv).1
  rw [overflow]
  generalize (2 : ℚ) ^ (971 : ℤ) = g at *
  have htop : (m : ℚ) * g ≤ (2 ^ 53 - 1) * g :=
    mul_le_mul_of_nonneg_right (by linarith) (by linarith)
  linarith

/-- **Printed, read as a float and printed again**, a number is the same text: the float that is
read is at least as near to what was printed as the one that was printed. -/
theorem rounded_toFloat {x : Float} (h : x.isFinite = true) {places : ℕ} {w : Decimal}
    (hmantissa : w.mantissa = ((ExactValue.exact x).rounded places).mantissa)
    (hexponent : w.exponent = -places) :
    (ExactValue.exact w.toFloat).IsFinite ∧ (ExactValue.exact w.toFloat).rounded places = w := by
  obtain ⟨negative, m, e, hparts, hm, he⟩ := exists_ofFloat h
  obtain ⟨n, d, hexact, hd, hvalue⟩ := exact_finite negative m e
  have hx : ExactValue.exact x = .finite negative n d := (congrArg exact hparts).trans hexact
  rw [hx] at hmantissa
  have hunits : w.mantissa = roundHalfEven (n * 10 ^ places) d := hmantissa
  obtain ⟨hnear, htie⟩ := roundHalfEven_near (n * 10 ^ places) hd
  rw [← hunits] at hnear htie
  have hten : (0 : ℚ) < 10 ^ places := pow_pos (by norm_num) _
  -- the distance to what is printed, in units of the last place
  have hscale : ∀ (a b : ℕ), |((a * 10 ^ places : ℕ) / b : ℚ) - w.mantissa| =
      10 ^ places * |w.mantissa * 10 ^ w.exponent - (a / b : ℚ)| := by
    intro a b
    have hfactor : ((a * 10 ^ places : ℕ) / b : ℚ) - w.mantissa =
        10 ^ places * (a / b - w.mantissa * 10 ^ w.exponent) := by
      rw [hexponent, zpow_neg, zpow_natCast, mul_sub, mul_comm _ ((w.mantissa : ℚ) * _),
        inv_mul_cancel_right₀ hten.ne']
      push_cast
      ring
    rw [hfactor, abs_mul, abs_of_pos hten, abs_sub_comm]
  have hprinted : |(m * 2 ^ e : ℚ) - w.mantissa * 10 ^ w.exponent| ≤ 1 / 2 := by
    rw [hscale, hvalue] at hnear
    rw [abs_sub_comm]
    exact (le_mul_of_one_le_left (abs_nonneg _) (one_le_pow₀ (by norm_num))).trans hnear
  obtain ⟨m', e', hparts', hnearest⟩ :=
    Decimal.toFloat_spec (printed_lt_overflow hm he hprinted)
  obtain ⟨n', d', hexact', hd', hvalue'⟩ := exact_finite w.negative m' e'
  have hfloat : ExactValue.exact w.toFloat = .finite w.negative n' d' :=
    (congrArg exact hparts').trans hexact'
  have hnot_farther : |((n' * 10 ^ places : ℕ) / d' : ℚ) - w.mantissa| ≤
      |((n * 10 ^ places : ℕ) / d : ℚ) - w.mantissa| := by
    rw [hscale, hscale, hvalue, hvalue']
    exact mul_le_mul_of_nonneg_left (hnearest m e hm) hten.le
  have hsame : Exact.scaled places n' d' = w.mantissa := by
    refine roundHalfEven_eq hd' (hnot_farther.trans hnear) fun heq => htie ?_
    exact le_antisymm hnear (heq ▸ hnot_farther)
  rw [hfloat]
  refine ⟨hd', ?_⟩
  show Decimal.ofUnits places w.negative (Exact.scaled places n' d') = w
  rw [hsame, Decimal.ofUnits, ← hexponent]

end Binary64

end Toolpath
