import Toolpath.Number.Decimal
import Toolpath.Proofs.Number.Digits
import Mathlib.Algebra.Order.Field.Basic
import Mathlib.Algebra.Order.Field.Rat
import Mathlib.Tactic.FieldSimp
import Mathlib.Tactic.Linarith
import Mathlib.Tactic.NormNum

/-!
# Numbers with a fixed number of decimals

A number that is printed with a fixed number of decimals is rounded to the nearest such decimal, and
what is printed reads as that decimal, its sign included. Printed again it is the same text.

* `RoundsTo` — rounding, as a relation between values
* `Exact.roundsTo_rounded` — the decimal that is printed is the rounded value
* `Decimal.ofNumeral?_numeral` — and is read back
* `Decimal.rounded_exact` — and is rounded to itself
-/

namespace Toolpath

namespace Exact

/-- The value, of what is finite. -/
def value? : Exact → Option ℚ
  | .finite negative n d => some ((if negative then -1 else 1) * (n / d))
  | _ => none

/-- A quotient. -/
def IsFinite : Exact → Prop
  | .finite _ _ d => 0 < d
  | _ => False

end Exact

/-! ## Rounding -/

/-- Rounded to a number of decimals: to a whole number of units in the last place, as near as there
is one, and to an even one if two are equally near. -/
def RoundsTo (places : ℕ) (q w : ℚ) : Prop :=
  ∃ k : ℤ, w = k / 10 ^ places ∧ |q * 10 ^ places - k| ≤ 1 / 2 ∧
    (|q * 10 ^ places - k| = 1 / 2 → Even k)

/-- What is above half a unit of the last place, and nothing else, is rounded to something above
zero: a half itself goes down, as zero is even. -/
theorem RoundsTo.pos_iff {places : ℕ} {q w : ℚ} (h : RoundsTo places q w) :
    0 < w ↔ 1 / 2 < q * 10 ^ places := by
  obtain ⟨k, rfl, hnear, htie⟩ := h
  have hpow : (0 : ℚ) < 10 ^ places := by positivity
  obtain ⟨hlow, hhigh⟩ := abs_le.mp hnear
  rw [div_pos_iff_of_pos_right hpow, Int.cast_pos]
  constructor
  · intro hk
    have hone : (1 : ℚ) ≤ k := by exact_mod_cast hk
    refine lt_of_le_of_ne (by linarith) fun hhalf => ?_
    have hk1 : k = 1 := by
      have hle : (k : ℚ) ≤ 1 := by linarith
      exact le_antisymm (by exact_mod_cast hle) hk
    have hodd : Even (1 : ℤ) := by
      rw [← hk1]
      refine htie ?_
      rw [← hhalf, hk1]
      norm_num
    exact absurd hodd (by decide)
  · intro hq
    have hpos : (0 : ℚ) < k := by linarith
    exact_mod_cast hpos

theorem roundHalfEven_near (n : ℕ) {d : ℕ} (hd : 0 < d) :
    |(n / d : ℚ) - roundHalfEven n d| ≤ 1 / 2 ∧
      (|(n / d : ℚ) - roundHalfEven n d| = 1 / 2 → Even (roundHalfEven n d)) := by
  have hd' : (0 : ℚ) < d := Nat.cast_pos.mpr hd
  -- the part behind the point decides between the two neighbours
  let x : ℚ := (n % d : ℕ) / d
  have hx : x * d = (n % d : ℕ) := div_mul_cancel₀ _ hd'.ne'
  have hsplit : (n / d : ℚ) = (n / d : ℕ) + x := by
    have hn : ((n / d : ℕ) : ℚ) * d + (n % d : ℕ) = n := by exact_mod_cast Nat.div_add_mod' n d
    rw [div_eq_iff hd'.ne', add_mul, hx, hn]
  have hnonneg : 0 ≤ x := div_nonneg (Nat.cast_nonneg _) hd'.le
  have hlt : x < 1 := (div_lt_one hd').mpr (by exact_mod_cast Nat.mod_lt n hd)
  have hbelow : 2 * (n % d) < d ↔ x < 1 / 2 := by
    rw [lt_div_iff₀ two_pos, ← mul_lt_mul_iff_left₀ hd', mul_right_comm, hx, one_mul, mul_comm]
    exact_mod_cast Iff.rfl
  have hhalf : 2 * (n % d) = d ↔ x = 1 / 2 := by
    rw [eq_div_iff two_ne_zero, ← mul_left_inj' hd'.ne', mul_right_comm, hx, one_mul, mul_comm]
    exact_mod_cast Iff.rfl
  rw [hsplit]
  unfold roundHalfEven
  by_cases hdown : 2 * (n % d) < d ∨ 2 * (n % d) = d ∧ n / d % 2 = 0
  · rw [if_pos hdown, add_sub_cancel_left, abs_of_nonneg hnonneg]
    rcases hdown with h | ⟨h, heven⟩
    · have h := hbelow.mp h
      exact ⟨h.le, fun heq => absurd heq h.ne⟩
    · exact ⟨(hhalf.mp h).le, fun _ => Nat.even_iff.mpr heven⟩
  · obtain ⟨hnot, hodd⟩ := not_or.mp hdown
    have hge : 1 / 2 ≤ x := not_lt.mp fun h => hnot (hbelow.mpr h)
    have hup : ((n / d : ℕ) : ℚ) + x - ((n / d + 1 : ℕ) : ℚ) = -(1 - x) := by
      push_cast
      ring
    rw [if_neg hdown, hup, abs_neg, abs_of_pos (sub_pos.mpr hlt)]
    refine ⟨by linarith, fun heq => ?_⟩
    have htie := hhalf.mpr (by linarith)
    have hparity : n / d % 2 ≠ 0 := fun heven => hodd ⟨htie, heven⟩
    exact Nat.even_iff.mpr (by omega)

/-- Two whole numbers are not both nearer than a half. -/
theorem one_le_add_abs_sub {a b : ℤ} (h : a ≠ b) (x : ℚ) : 1 ≤ |x - a| + |x - b| := by
  have hint : 1 ≤ |a - b| := Int.one_le_abs (sub_ne_zero.mpr h)
  calc (1 : ℚ) ≤ |(a : ℚ) - b| := by exact_mod_cast hint
    _ ≤ |(a : ℚ) - x| + |x - b| := abs_sub_le _ _ _
    _ = |x - a| + |x - b| := by rw [abs_sub_comm]

theorem roundHalfEven_nearest (n : ℕ) {d : ℕ} (hd : 0 < d) (k : ℤ) :
    |(n / d : ℚ) - roundHalfEven n d| ≤ |(n / d : ℚ) - k| := by
  obtain ⟨hnear, -⟩ := roundHalfEven_near n hd
  rcases eq_or_ne (roundHalfEven n d : ℤ) k with rfl | hne
  · exact le_of_eq (by push_cast; rfl)
  · have hapart := one_le_add_abs_sub hne (n / d)
    push_cast at hapart
    linarith

/-- Only one whole number is so near, and even if it is a half away. -/
theorem roundHalfEven_eq {n d k : ℕ} (hd : 0 < d) (hnear : |(n / d : ℚ) - k| ≤ 1 / 2)
    (htie : |(n / d : ℚ) - k| = 1 / 2 → Even k) : roundHalfEven n d = k := by
  obtain ⟨hnear', htie'⟩ := roundHalfEven_near n hd
  by_contra hne
  have hne' : (roundHalfEven n d : ℤ) ≠ k := by exact_mod_cast hne
  have hapart := one_le_add_abs_sub hne' (n / d)
  push_cast at hapart
  -- both are a half away, so they are neighbours, and both are even
  have heven := htie (by linarith)
  have heven' := htie' (by linarith)
  have hstep : |(roundHalfEven n d : ℚ) - k| ≤ 1 := by
    have htriangle := abs_sub_le (roundHalfEven n d : ℚ) (n / d) k
    rw [abs_sub_comm (roundHalfEven n d : ℚ) (n / d)] at htriangle
    linarith
  have hstep' : |(roundHalfEven n d : ℤ) - k| ≤ 1 := by exact_mod_cast hstep
  obtain ⟨hlow, hhigh⟩ := abs_le.mp hstep'
  obtain ⟨a, ha⟩ := heven
  obtain ⟨b, hb⟩ := heven'
  omega

theorem roundHalfEven_mul (k : ℕ) {d : ℕ} (hd : 0 < d) : roundHalfEven (k * d) d = k := by
  have hdown : 2 * (k * d % d) < d := by
    rw [Nat.mul_mod_left]
    omega
  rw [roundHalfEven, if_pos (Or.inl hdown), Nat.mul_div_cancel k hd]

/-! ## Decimals with a fixed number of places -/

namespace Decimal

/-- So many units of the last of some places, with a sign. -/
def ofUnits (places : ℕ) (negative : Bool) (units : ℕ) : Decimal := ⟨negative, units, -places⟩

theorem toRat_ofUnits (places : ℕ) (negative : Bool) (units : ℕ) :
    (ofUnits places negative units).toRat =
      (if negative then -1 else 1) * units / 10 ^ places := by
  rw [toRat, ofUnits, zpow_neg, zpow_natCast, div_eq_mul_inv]

/-- The decimal without the sign that a zero can carry. -/
def unsignedZero (w : Decimal) : Decimal := { w with negative := w.negative && w.mantissa != 0 }

theorem toRat_unsignedZero (w : Decimal) : w.unsignedZero.toRat = w.toRat := by
  rcases w with ⟨negative, mantissa, exponent⟩
  cases mantissa with
  | zero => simp [toRat, unsignedZero]
  | succ n => simp [toRat, unsignedZero]

theorem unsignedZero_unsignedZero (w : Decimal) : w.unsignedZero.unsignedZero = w.unsignedZero := by
  simp [unsignedZero]

/-- The text of a decimal that has no power of ten on top. -/
def numeral (w : Decimal) : List Char :=
  Exact.sign w.negative ++ Exact.decimalText (-w.exponent).toNat w.mantissa

end Decimal

namespace Exact

/-- The decimal that is printed for a value. -/
def rounded (places : ℕ) : Exact → Decimal
  | .finite negative n d => .ofUnits places negative (scaled places n d)
  | _ => .ofUnits places false 0

theorem exponent_rounded (places : ℕ) (e : Exact) : (e.rounded places).exponent = -places := by
  cases e <;> rfl

theorem fixed_eq {e : Exact} (h : e.IsFinite) (places : ℕ) :
    e.fixed places = (e.rounded places).numeral := by
  cases e with
  | nan => exact h.elim
  | infinite negative => exact h.elim
  | finite negative n d =>
    rw [Decimal.numeral, exponent_rounded, Int.neg_neg, Int.toNat_natCast]
    rfl

theorem fixedUnsignedZero_eq {e : Exact} (h : e.IsFinite) (places : ℕ) :
    e.fixedUnsignedZero places = (e.rounded places).unsignedZero.numeral := by
  cases e with
  | nan => exact h.elim
  | infinite negative => exact h.elim
  | finite negative n d =>
    have hexponent : (rounded places (.finite negative n d)).unsignedZero.exponent = -places := rfl
    rw [Decimal.numeral, hexponent, Int.neg_neg, Int.toNat_natCast]
    rfl

theorem roundsTo_rounded {e : Exact} (h : e.IsFinite) (places : ℕ) :
    ∃ q, e.value? = some q ∧ RoundsTo places q (e.rounded places).toRat := by
  rcases e with _ | negative | ⟨negative, n, d⟩
  · exact h.elim
  · exact h.elim
  -- magnitudes are rounded, so the sign is taken out on both sides
  let units := scaled places n d
  let s : ℤ := if negative then -1 else 1
  have hs : (if negative then -1 else 1 : ℚ) = s := by
    cases negative <;> rfl
  have habs : |(s : ℚ)| = 1 := by
    cases negative <;> simp [s]
  have hvalue : (Decimal.ofUnits places negative units).toRat = (s * units : ℤ) / 10 ^ places := by
    rw [Decimal.toRat_ofUnits, hs]
    push_cast
    rfl
  obtain ⟨hnear, htie⟩ := roundHalfEven_near (n * 10 ^ places) h
  have hdist : |s * (n / d : ℚ) * 10 ^ places - (s * units : ℤ)| =
      |((n * 10 ^ places : ℕ) / d : ℚ) - units| := by
    have hfactor : s * (n / d : ℚ) * 10 ^ places - (s * units : ℤ) =
        s * (((n * 10 ^ places : ℕ) / d : ℚ) - units) := by
      push_cast
      ring
    rw [hfactor, abs_mul, habs, one_mul]
  refine ⟨_, rfl, s * units, hvalue, ?_, ?_⟩
  · rw [hs, hdist]
    exact hnear
  · rw [hs, hdist]
    intro heq
    have heven : Even (units : ℤ) := (Int.even_coe_nat units).mpr (htie heq)
    exact heven.mul_left s

end Exact

/-! ## Reading what is printed -/

namespace Decimal

theorem splitSign_of_digit {c : Char} (h : Digits.isDigit c = true) (rest : List Char) :
    splitSign (c :: rest) = (false, c :: rest) := by
  obtain ⟨d, hd, rfl⟩ := Digits.exists_char_of_isDigit h
  have hall : ∀ e ∈ List.range 10, Digits.char e ≠ '-' ∧ Digits.char e ≠ '+' := by decide
  obtain ⟨hminus, hplus⟩ := hall d (List.mem_range.mpr hd)
  unfold splitSign
  split
  · exact absurd (List.cons.inj ‹_›).1 hminus
  · exact absurd (List.cons.inj ‹_›).1 hplus
  · rfl

/-- The digits behind the point of a number of units. -/
def fractionDigits (places units : ℕ) : List Char :=
  if places = 0 then [] else Digits.padded places (units % 10 ^ places)

theorem decimalText_eq (places units : ℕ) :
    Exact.decimalText places units =
      Digits.ofNat (units / 10 ^ places) ++
        if places = 0 then [] else '.' :: fractionDigits places units := by
  unfold Exact.decimalText fractionDigits
  split <;> rfl

theorem isDigit_fractionDigits (places units : ℕ) :
    ∀ c ∈ fractionDigits places units, Digits.isDigit c = true := by
  unfold fractionDigits
  split
  · exact fun c hc => absurd hc List.not_mem_nil
  · exact Digits.isDigit_padded places _

theorem length_fractionDigits (places units : ℕ) :
    (fractionDigits places units).length = places := by
  unfold fractionDigits
  by_cases hp : places = 0
  · rw [if_pos hp, hp]
    rfl
  · rw [if_neg hp]
    exact Digits.length_padded _ _

theorem value_digits (places units : ℕ) :
    Digits.value (Digits.ofNat (units / 10 ^ places) ++ fractionDigits places units) = units := by
  have hfraction : Digits.value (fractionDigits places units) = units % 10 ^ places := by
    unfold fractionDigits
    by_cases hp : places = 0
    · rw [if_pos hp, hp, pow_zero, Nat.mod_one]
      rfl
    · rw [if_neg hp, Digits.value_padded, Nat.mod_mod]
  rw [Digits.value_append, length_fractionDigits, Digits.value_ofNat, hfraction]
  exact Nat.div_add_mod' units (10 ^ places)

theorem splitPoint_decimalText (places units : ℕ) :
    splitPoint (Exact.decimalText places units) =
      some (Digits.ofNat (units / 10 ^ places), fractionDigits places units) := by
  have hwhole := Digits.isDigit_ofNat (units / 10 ^ places)
  unfold splitPoint
  rw [decimalText_eq]
  by_cases hp : places = 0
  · have hspan : Digits.span (Digits.ofNat (units / 10 ^ places) ++ []) =
        (Digits.ofNat (units / 10 ^ places), []) := Digits.span_append_stop hwhole (by simp)
    have hnone : fractionDigits places units = [] := if_pos hp
    rw [if_pos hp, hspan, hnone]
  · have hspan : Digits.span (Digits.ofNat (units / 10 ^ places) ++
          '.' :: fractionDigits places units) =
        (Digits.ofNat (units / 10 ^ places), '.' :: fractionDigits places units) :=
      Digits.span_append_stop hwhole (by simp [Digits.isDigit])
    have hall : (fractionDigits places units).all Digits.isDigit = true :=
      List.all_eq_true.mpr (isDigit_fractionDigits places units)
    rw [if_neg hp, hspan]
    exact if_pos hall

theorem splitSign_numeral (w : Decimal) :
    splitSign w.numeral = (w.negative, Exact.decimalText (-w.exponent).toNat w.mantissa) := by
  rcases w with ⟨negative, units, exponent⟩
  cases negative with
  | true => rfl
  | false =>
    show splitSign (Exact.decimalText _ units) = _
    rw [decimalText_eq]
    cases hwhole : Digits.ofNat (units / 10 ^ (-exponent).toNat) with
    | nil => exact absurd hwhole (Digits.ofNat_ne_nil _)
    | cons c ds =>
      have hdigit : Digits.isDigit c = true :=
        Digits.isDigit_ofNat _ c (hwhole ▸ List.mem_cons_self)
      exact splitSign_of_digit hdigit _

/-- **What is printed is read as it was printed**, with its sign. -/
theorem ofNumeral?_numeral {w : Decimal} (h : w.exponent ≤ 0) : ofNumeral? w.numeral = some w := by
  obtain ⟨negative, units, exponent⟩ := w
  obtain ⟨places, rfl⟩ : ∃ places : ℕ, exponent = -places := ⟨(-exponent).toNat, by
    rw [Int.toNat_of_nonneg (Int.neg_nonneg.mpr h), Int.neg_neg]⟩
  have hplaces : (- -(places : ℤ)).toNat = places := by
    rw [Int.neg_neg, Int.toNat_natCast]
  have hsome : ((Digits.ofNat (units / 10 ^ places)).isEmpty &&
      (fractionDigits places units).isEmpty) = false := by
    simp [Digits.ofNat_ne_nil]
  unfold ofNumeral?
  simp only [splitSign_numeral, hplaces, splitPoint_decimalText, hsome]
  simp only [Bool.false_eq_true, if_false, ofParts, value_digits, length_fractionDigits,
    Int.zero_sub]

/-! ## Printing what is read -/

/-- A decimal denotes its value, and its sign even if that is zero. -/
instance : ExactValue Decimal where
  exact w := match w.exponent with
    | .ofNat e => .finite w.negative (w.mantissa * Nat.pow 10 e) 1
    | .negSucc e => .finite w.negative w.mantissa (Nat.pow 10 (e + 1))

theorem isFinite_exact (w : Decimal) : (ExactValue.exact w).IsFinite := by
  rcases w with ⟨negative, mantissa, e | e⟩
  · exact one_pos
  · exact pow_pos (by norm_num : 0 < 10) (e + 1)

/-- A decimal is rounded to itself. -/
theorem rounded_exact {w : Decimal} {places : ℕ} (h : w.exponent = -places) :
    (ExactValue.exact w).rounded places = w := by
  obtain ⟨negative, units, exponent⟩ := w
  obtain rfl : exponent = -(places : ℤ) := h
  cases places with
  | zero =>
    have hunits : Exact.scaled 0 (units * Nat.pow 10 0) 1 = units := by
      show roundHalfEven (units * 10 ^ 0 * 10 ^ 0) 1 = units
      rw [pow_zero, mul_one]
      exact roundHalfEven_mul units one_pos
    show ofUnits 0 negative (Exact.scaled 0 (units * Nat.pow 10 0) 1) = _
    rw [hunits]
    rfl
  | succ places =>
    have hunits : Exact.scaled (places + 1) units (Nat.pow 10 (places + 1)) = units :=
      roundHalfEven_mul units (pow_pos (by norm_num) _)
    show ofUnits (places + 1) negative (Exact.scaled (places + 1) units _) = _
    rw [hunits]
    rfl

end Decimal

end Toolpath
