import Toolpath.Number.Shortest
import Toolpath.Proofs.Number.Nearest

/-!
# Shortest digits are read back

A float is written with the fewest digits that lie in the interval around it. All that lies there is
read as the float, so it comes back from its digits, in whatever form they are set out.

* `Shortest.Interval.Holds` — a value lies in an interval
* `Shortest.nearest_of_holds` — what lies in the interval of a float is read as that float
* `Shortest.digits_spec` — the digits of a float lie in its interval
* `Shortest.toFloat_eq` — a decimal with the value of these digits is read as the float
-/

namespace Toolpath.Shortest

open Binary64

/-! ## The interval around a float -/

/-- A value lies in an interval. -/
def Interval.Holds (i : Interval) (v : ℚ) : Prop :=
  if i.closed then i.low * 2 ^ i.exponent ≤ v ∧ v ≤ i.high * 2 ^ i.exponent
  else i.low * 2 ^ i.exponent < v ∧ v < i.high * 2 ^ i.exponent

theorem Interval.Holds.bounds {i : Interval} {v : ℚ} (h : i.Holds v) :
    i.low * 2 ^ i.exponent ≤ v ∧ v ≤ i.high * 2 ^ i.exponent := by
  unfold Interval.Holds at h
  split at h
  · exact h
  · exact ⟨h.1.le, h.2.le⟩

section

variable {m : ℕ} {e : ℤ} {v : ℚ}

/-- The lower end is half of the last place below a mantissa, or a quarter where the floats below
lie twice as close. -/
theorem low_interval (hm : 0 < m) (e : ℤ) :
    ((interval m e).low : ℚ) =
      if m = hiddenBit ∧ leastExponent < e then (4 * m - 1 : ℚ) else 4 * m - 2 := by
  simp only [interval]
  split
  all_goals
    rw [Nat.cast_sub (by omega)]
    push_cast
    rfl

theorem low_interval_le (hm : 0 < m) (e : ℤ) : (4 * m - 2 : ℚ) ≤ (interval m e).low := by
  rw [low_interval hm]
  split <;> linarith

/-- The ends of the interval, in units of the last place. -/
theorem Interval.Holds.scaled (h : (interval m e).Holds v) :
    (interval m e).low / 4 ≤ v / 2 ^ e ∧ v / 2 ^ e ≤ m + 1 / 2 ∧
      (¬Even m → ((interval m e).low / 4 : ℚ) < v / 2 ^ e ∧ v / 2 ^ e < m + 1 / 2) := by
  -- the unit of the interval is a quarter of the last place
  have hunit : (0 : ℚ) < 2 ^ (e - 2) := zpow_pos two_pos _
  have hplace : (2 : ℚ) ^ e = 2 ^ (e - 2) * 4 := by
    rw [zpow_sub₀ two_ne_zero]
    ring
  have hscaled : v / 2 ^ e = v / 2 ^ (e - 2) / 4 := by rw [hplace, div_div]
  have hhigh : (m + 1 / 2 : ℚ) = (interval m e).high / 4 := by
    simp only [interval]
    push_cast
    ring
  rw [hscaled, hhigh]
  simp only [div_le_div_iff_of_pos_right (four_pos : (0 : ℚ) < 4),
    div_lt_div_iff_of_pos_right (four_pos : (0 : ℚ) < 4), le_div_iff₀ hunit, div_le_iff₀ hunit,
    lt_div_iff₀ hunit, div_lt_iff₀ hunit]
  refine ⟨h.bounds.1, h.bounds.2, fun hodd => ?_⟩
  have hopen : ¬(interval m e).closed = true := by
    simpa [interval, Nat.even_iff] using hodd
  rw [Interval.Holds, if_neg hopen] at h
  exact h

theorem Interval.Holds.pos (hm : 0 < m) (h : (interval m e).Holds v) : 0 < v := by
  have hlow := low_interval_le hm e
  have hone : (1 : ℚ) ≤ m := by exact_mod_cast hm
  have hpos : (0 : ℚ) < (interval m e).low := by linarith
  exact (mul_pos hpos (zpow_pos two_pos _)).trans_le h.bounds.1

/-- What lies in the interval of a float is at most half of the last place away from it, and less if
the mantissa is odd. -/
theorem Interval.Holds.near (hm : 0 < m) (h : (interval m e).Holds v) :
    |v / 2 ^ e - m| ≤ 1 / 2 ∧ (|v / 2 ^ e - m| = 1 / 2 → Even m) := by
  have hlow := low_interval_le hm e
  obtain ⟨hge, hle, hstrict⟩ := h.scaled
  refine ⟨abs_le.mpr ⟨by linarith, by linarith⟩, fun hhalf => ?_⟩
  by_contra hodd
  obtain ⟨hgt, hlt⟩ := hstrict hodd
  exact absurd hhalf (abs_lt.mpr ⟨by linarith, by linarith⟩).ne

/-! ## What lies in the interval is read as the float -/

variable {n d : ℕ}

section

variable (hparts : Canonical m e) (hn : 0 < n) (hd : 0 < d) (h : (interval m e).Holds (n / d))

include hparts hn hd h

/-- A value with the exponent of a float, in its interval, has its mantissa too. -/
theorem packed_of_reach (hm : 0 < m) (hreach : e = leastExponent ∨ 2 ^ 52 ≤ (n / d / 2 ^ e : ℚ)) :
    packed (mantissaFor n d) (exponentFor n d) = packed m e := by
  obtain ⟨-, hle, -⟩ := h.scaled
  obtain ⟨hnear, htie⟩ := h.near hm
  have hplace : (0 : ℚ) < 2 ^ e := zpow_pos two_pos e
  have htop : (m : ℚ) + 1 ≤ 2 * hiddenBit := by exact_mod_cast hparts.1.1
  have hexponent : exponentFor n d = e := by
    refine exponentFor_eq hn hd hparts.1.2 ?_ (hreach.imp_right fun hreach => ?_)
    · rw [add_comm, zpow_add₀ two_ne_zero, ← div_lt_iff₀ hplace]
      rw [hiddenBit_cast] at htop
      norm_num at htop ⊢
      linarith
    · rw [add_comm, zpow_add₀ two_ne_zero, ← le_div_iff₀ hplace]
      exact_mod_cast hreach
  rw [mantissaFor_eq hd (hexponent ▸ hnear) (hexponent ▸ htie), hexponent]

/-- A value below the float that still lies in its interval rounds up to twice its mantissa, at the
exponent below. -/
theorem packed_of_below (hlarge : leastExponent < e) (hbelow : (n / d / 2 ^ e : ℚ) < 2 ^ 52) :
    packed (mantissaFor n d) (exponentFor n d) = packed m e := by
  obtain ⟨hge, -, -⟩ := h.scaled
  have hplace : (0 : ℚ) < 2 ^ e := zpow_pos two_pos e
  have hbit := hparts.hidden hlarge
  have hm : 0 < m := lt_of_lt_of_le (by decide) hbit
  have hm_eq : m = hiddenBit := by
    by_contra hne
    have hmore : (hiddenBit : ℚ) + 1 ≤ m := by exact_mod_cast lt_of_le_of_ne hbit (Ne.symm hne)
    have hlow := low_interval_le hm e
    rw [hiddenBit_cast] at hmore
    linarith
  have hlow : ((interval m e).low : ℚ) = 4 * 2 ^ 52 - 1 := by
    rw [low_interval hm, if_pos ⟨hm_eq, hlarge⟩, hm_eq, hiddenBit_cast]
  have hexponent : exponentFor n d = e - 1 := by
    refine exponentFor_eq hn hd (by omega) ?_ (Or.inr ?_)
    · have hshift : e - 1 + 53 = 52 + e := by ring
      rw [hshift, zpow_add₀ two_ne_zero, ← div_lt_iff₀ hplace]
      exact_mod_cast hbelow
    · have hshift : e - 1 + 52 = 51 + e := by ring
      rw [hshift, zpow_add₀ two_ne_zero, ← le_div_iff₀ hplace]
      norm_num at hlow ⊢
      linarith
  have hdouble : (n / d / 2 ^ (e - 1) : ℚ) = 2 * (n / d / 2 ^ e) := by
    rw [zpow_sub_one₀ two_ne_zero]
    field_simp
  have hmantissa : mantissaFor n d = 2 * hiddenBit := by
    refine mantissaFor_eq hd ?_ fun _ => even_two_mul _
    rw [hexponent, hdouble, Nat.cast_mul, hiddenBit_cast]
    norm_num at hlow hbelow ⊢
    exact abs_le.mpr ⟨by linarith, by linarith⟩
  rw [hmantissa, hexponent, hm_eq, packed_double hlarge]

end

/-- What lies in the interval of a float is read as that float. -/
theorem nearest_of_holds (negative : Bool) (hparts : Canonical m e) (hm : 0 < m) (hd : 0 < d)
    (h : (interval m e).Holds (n / d)) : ofFloat (nearest negative n d) = .finite negative m e := by
  have hn : 0 < n := by
    have hpos := h.pos hm
    rw [div_pos_iff_of_pos_right (Nat.cast_pos.mpr hd)] at hpos
    exact_mod_cast hpos
  have hpacked : packed (mantissaFor n d) (exponentFor n d) = packed m e := by
    by_cases hreach : e = leastExponent ∨ 2 ^ 52 ≤ (n / d / 2 ^ e : ℚ)
    · exact packed_of_reach hparts hn hd h hm hreach
    · obtain ⟨hne, hless⟩ := not_or.mp hreach
      exact packed_of_below hparts hn hd h (lt_of_le_of_ne hparts.1.2 (Ne.symm hne))
        (not_le.mp hless)
  rw [nearest, nearestBits_eq, hpacked, Nat.min_eq_left hparts.packed_lt.le]
  exact hparts.ofFloat_packed negative

/-- The interval of a float ends below all values that are too great for one. -/
theorem Interval.Holds.lt_overflow (h : (interval m e).Holds v) (hparts : Canonical m e) :
    v < overflow := by
  have hplace : (0 : ℚ) < 2 ^ e := zpow_pos two_pos e
  have hgrow : (2 : ℚ) ^ e ≤ 2 ^ (971 : ℤ) := zpow_le_zpow_right₀ one_le_two hparts.le_greatest
  have htop : (m : ℚ) + 1 ≤ 2 ^ 53 := by exact_mod_cast hparts.1.1
  obtain ⟨-, hle, hopen⟩ := h.scaled
  have hless : v / 2 ^ e < 2 ^ 53 - 1 / 2 := by
    by_cases hlast : m + 1 = 2 ^ 53
    · -- the greatest mantissa is odd
      have hodd : ¬Even m := by
        rw [Nat.even_iff]
        omega
      linarith [(hopen hodd).2]
    · have hmore : (m : ℚ) + 1 < 2 ^ 53 := lt_of_le_of_ne htop (by exact_mod_cast hlast)
      linarith
  calc v = v / 2 ^ e * 2 ^ e := (div_mul_cancel₀ v hplace.ne').symm
    _ < (2 ^ 53 - 1 / 2) * 2 ^ e := mul_lt_mul_of_pos_right hless hplace
    _ ≤ overflow := mul_le_mul_of_nonneg_left hgrow (by norm_num)

/-- It begins above half of the least float. -/
theorem Interval.Holds.least_lt (h : (interval m e).Holds v) (hparts : Canonical m e)
    (hm : 0 < m) : 2 ^ leastExponent < 2 * v := by
  have hplace : (0 : ℚ) < 2 ^ e := zpow_pos two_pos e
  have hgrow : (2 : ℚ) ^ leastExponent ≤ 2 ^ e := zpow_le_zpow_right₀ one_le_two hparts.1.2
  have hlow := low_interval_le hm e
  obtain ⟨hge, -, hopen⟩ := h.scaled
  have hmore : 1 / 2 < v / 2 ^ e := by
    rcases Nat.lt_or_ge 1 m with hm2 | hm1
    · have htwo : (2 : ℚ) ≤ m := by exact_mod_cast hm2
      linarith
    · -- the interval of the least float does not hold its ends
      obtain rfl : m = 1 := le_antisymm hm1 hm
      have hgt := (hopen (by decide)).1
      push_cast at hlow
      linarith
  rw [lt_div_iff₀ hplace] at hmore
  linarith

/-- A decimal that lies there is read as that float too. -/
theorem toFloat_of_holds {w : Decimal} (hparts : Canonical m e) (hm : 0 < m)
    (h : (interval m e).Holds (w.mantissa * 10 ^ w.exponent)) :
    ofFloat w.toFloat = .finite w.negative m e := by
  have hsmall : ¬(w.mantissa = 0 ∨
      ((Digits.ofNat w.mantissa).length : ℤ) + w.exponent < -330) := by
    rintro (hzero | hless)
    · have hpos := h.pos hm
      rw [hzero, Nat.cast_zero, zero_mul] at hpos
      exact lt_irrefl _ hpos
    · exact absurd (h.least_lt hparts hm) (Decimal.two_mul_le_of_magnitude_lt hless).not_gt
  obtain ⟨n, d, hd, hquotient, hread⟩ :=
    Decimal.exists_toFloat_eq hsmall (h.lt_overflow hparts)
  rw [hread]
  exact nearest_of_holds w.negative hparts hm hd (hquotient ▸ h)

end

/-! ## The grids -/

theorem toNat_zpow {b : ℕ} (hb : 0 < b) (e : ℤ) :
    ((b ^ e.toNat : ℕ) : ℚ) = b ^ e * ((b ^ (-e).toNat : ℕ) : ℚ) := by
  have hb' : (b : ℚ) ≠ 0 := Nat.cast_ne_zero.mpr hb.ne'
  have hsplit : ((e.toNat : ℕ) : ℤ) = e + ((-e).toNat : ℕ) := by omega
  push_cast
  rw [← zpow_natCast, ← zpow_natCast, hsplit, zpow_add₀ hb']

/-- Both numbers of a ratio are what they stand for, times the same number. -/
theorem ratio_spec (e p : ℤ) :
    ∃ k : ℚ, 0 < k ∧ ((ratio e p).1 : ℚ) = 2 ^ e * k ∧ ((ratio e p).2 : ℚ) = 10 ^ p * k := by
  have htwo := toNat_zpow two_pos e
  have hten := toNat_zpow (by norm_num : 0 < 10) p
  refine ⟨2 ^ (-e).toNat * 10 ^ (-p).toNat, by positivity, ?_, ?_⟩
  · show ((2 ^ e.toNat * 10 ^ (-p).toNat : ℕ) : ℚ) = _
    rw [Nat.cast_mul, htwo]
    push_cast
    ring
  · show ((2 ^ (-e).toNat * 10 ^ p.toNat : ℕ) : ℚ) = _
    rw [Nat.cast_mul, hten]
    push_cast
    ring

theorem ratio_snd_pos (e p : ℤ) : 0 < (ratio e p).2 :=
  Nat.mul_pos (Nat.pow_pos two_pos) (Nat.pow_pos (by norm_num))

section

variable (e p : ℤ) (a c : ℕ)

/-- A multiple of the unit is compared with a point of a grid. -/
theorem mul_ratio_le :
    a * (ratio e p).1 ≤ c * (ratio e p).2 ↔ (a * 2 ^ e : ℚ) ≤ c * 10 ^ p := by
  obtain ⟨k, hk, hunit, hstep⟩ := ratio_spec e p
  rw [← Nat.cast_le (α := ℚ), Nat.cast_mul, Nat.cast_mul, hunit, hstep, ← mul_assoc, ← mul_assoc,
    mul_le_mul_iff_left₀ hk]

theorem le_mul_ratio :
    c * (ratio e p).2 ≤ a * (ratio e p).1 ↔ (c * 10 ^ p : ℚ) ≤ a * 2 ^ e := by
  obtain ⟨k, hk, hunit, hstep⟩ := ratio_spec e p
  rw [← Nat.cast_le (α := ℚ), Nat.cast_mul, Nat.cast_mul, hunit, hstep, ← mul_assoc, ← mul_assoc,
    mul_le_mul_iff_left₀ hk]

end

/-- A point of a grid lies in an interval, as it is found out. -/
def Interval.inside (i : Interval) (p : ℤ) (c : ℕ) : Bool :=
  if i.closed then i.low * (ratio i.exponent p).1 ≤ c * (ratio i.exponent p).2 &&
    c * (ratio i.exponent p).2 ≤ i.high * (ratio i.exponent p).1
  else i.low * (ratio i.exponent p).1 < c * (ratio i.exponent p).2 &&
    c * (ratio i.exponent p).2 < i.high * (ratio i.exponent p).1

theorem inside_iff {i : Interval} {p : ℤ} {c : ℕ} : i.inside p c = true ↔ i.Holds (c * 10 ^ p) := by
  unfold Interval.inside Interval.Holds
  split
  · rw [Bool.and_eq_true, decide_eq_true_eq, decide_eq_true_eq, mul_ratio_le, le_mul_ratio]
  · rw [Bool.and_eq_true, decide_eq_true_eq, decide_eq_true_eq, ← not_le, ← not_le, mul_ratio_le,
      le_mul_ratio, not_le, not_le]

/-- The point below a float. -/
def Interval.below (i : Interval) (p : ℤ) : ℕ :=
  i.value * (ratio i.exponent p).1 / (ratio i.exponent p).2

theorem onGrid?_eq (tie : Tie) (i : Interval) (p : ℤ) :
    ∃ preferBelow : Bool, onGrid? tie i p =
      if i.inside p (i.below p) && (preferBelow || !i.inside p (i.below p + 1)) then
        some (i.below p)
      else if i.inside p (i.below p + 1) then some (i.below p + 1) else none :=
  ⟨_, rfl⟩

/-- What is found on a grid lies in the interval. -/
theorem holds_of_onGrid? {tie : Tie} {i : Interval} {p : ℤ} {c : ℕ} (h : onGrid? tie i p = some c) :
    i.Holds (c * 10 ^ p) := by
  obtain ⟨preferBelow, hchoice⟩ := onGrid?_eq tie i p
  rw [hchoice] at h
  rw [← inside_iff]
  split at h
  · next hbelow =>
    obtain rfl := Option.some.inj h
    exact (Bool.and_eq_true_iff.mp hbelow).1
  · split at h
    · next habove =>
      obtain rfl := Option.some.inj h
      exact habove
    · cases h

/-- A grid that is no coarser than the unit has a point in the interval of a float. -/
theorem onGrid?_ne_none {tie : Tie} {m : ℕ} (hm : 0 < m) {e p : ℤ}
    (hfine : (10 : ℚ) ^ p ≤ 2 ^ (e - 2)) : onGrid? tie (interval m e) p ≠ none := by
  generalize hi : interval m e = i
  have hexponent : i.exponent = e - 2 := hi ▸ rfl
  have hlow : i.low + 1 ≤ i.value := by
    subst hi
    simp only [interval]
    split <;> omega
  have hhigh : i.value < i.high := by
    subst hi
    exact Nat.lt_add_of_pos_right two_pos
  have hinside : i.inside p (i.below p) = true := by
    rw [← hexponent, ← one_mul ((10 : ℚ) ^ p), ← one_mul ((2 : ℚ) ^ i.exponent), ← Nat.cast_one,
      ← le_mul_ratio, one_mul, one_mul] at hfine
    have hd := ratio_snd_pos i.exponent p
    -- the point below the float is less than a unit away from it
    have hbelow : i.below p * (ratio i.exponent p).2 ≤ i.value * (ratio i.exponent p).1 :=
      Nat.div_mul_le_self _ _
    have habove : i.value * (ratio i.exponent p).1 <
        i.below p * (ratio i.exponent p).2 + (ratio i.exponent p).2 := Nat.lt_div_mul_add hd
    unfold Interval.inside
    generalize (ratio i.exponent p).1 = n at *
    generalize (ratio i.exponent p).2 = d at *
    have hlow := Nat.mul_le_mul_right n hlow
    have hhigh := Nat.mul_lt_mul_of_pos_right hhigh (hd.trans_le hfine)
    rw [Nat.succ_mul] at hlow
    split
    all_goals
      rw [Bool.and_eq_true, decide_eq_true_eq, decide_eq_true_eq]
      omega
  obtain ⟨preferBelow, hchoice⟩ := onGrid?_eq tie i p
  rw [hchoice, hinside]
  cases preferBelow <;> cases habove : i.inside p (i.below p + 1) <;> simp

/-! ## The digits of a float -/

/-- A power of ten is below a power of two: ten lies between `2 ^ 3.3` and `2 ^ (10 / 3)`. -/
theorem ten_zpow_le {p e : ℤ} (hpos : 10 * p ≤ 3 * e) (hneg : 33 * p ≤ 10 * e) :
    (10 : ℚ) ^ p ≤ 2 ^ e := by
  have hten : (0 : ℚ) ≤ 10 ^ p := (zpow_pos (by norm_num) p).le
  have htwo : (0 : ℚ) ≤ 2 ^ e := (zpow_pos two_pos e).le
  rcases le_total 0 p with hp | hp
  · rw [← pow_le_pow_iff_left₀ hten htwo three_ne_zero]
    calc ((10 : ℚ) ^ p) ^ 3 = (10 ^ 3) ^ p := by rw [← zpow_natCast, zpow_comm]; norm_cast
      _ ≤ (2 ^ 10) ^ p := zpow_le_zpow_left₀ hp (by norm_num) (by norm_num)
      _ = 2 ^ (10 * p) := by rw [zpow_mul]; norm_cast
      _ ≤ 2 ^ (3 * e) := zpow_le_zpow_right₀ one_le_two hpos
      _ = (2 ^ e) ^ 3 := by rw [mul_comm, zpow_mul]; norm_cast
  · rw [← pow_le_pow_iff_left₀ hten htwo (by norm_num : 10 ≠ 0)]
    have hpowers : ((2 : ℚ) ^ 33) ^ (-p) ≤ (10 ^ 10) ^ (-p) :=
      zpow_le_zpow_left₀ (by omega) (by norm_num) (by norm_num)
    rw [zpow_neg, zpow_neg] at hpowers
    calc ((10 : ℚ) ^ p) ^ 10 = (10 ^ 10) ^ p := by rw [← zpow_natCast, zpow_comm]; norm_cast
      _ ≤ (2 ^ 33) ^ p :=
        (inv_le_inv₀ (zpow_pos (by norm_num) p) (zpow_pos (by norm_num) p)).mp hpowers
      _ = 2 ^ (33 * p) := by rw [zpow_mul]; norm_cast
      _ ≤ 2 ^ (10 * e) := zpow_le_zpow_right₀ one_le_two hneg
      _ = (2 ^ e) ^ 10 := by rw [mul_comm, zpow_mul]; norm_cast

/-- The last of the grids is fine enough for a float. -/
theorem coarsest_fine {m : ℕ} {e : ℤ} (hparts : Canonical m e) (hm : 0 < m) :
    (10 : ℚ) ^ (coarsest m e - 23) ≤ 2 ^ (e - 2) := by
  have hbits : m.log2 < 53 := (Nat.log2_lt hm.ne').mpr hparts.1.1
  have hleast : -1074 ≤ e := hparts.1.2
  have hgreatest := hparts.le_greatest
  unfold coarsest
  rw [Int.fdiv_eq_ediv_of_nonneg _ (by norm_num)]
  exact ten_zpow_le (by omega) (by omega)

/-- **The digits of a float** lie in its interval. -/
theorem digits_spec (tie : Tie) {m : ℕ} {e : ℤ} (hparts : Canonical m e) (hm : 0 < m) :
    (interval m e).Holds ((digits tie m e).1 * 10 ^ (digits tie m e).2) := by
  unfold digits
  cases hfound : (List.range 24).findSome? fun k : ℕ =>
      (onGrid? tie (interval m e) (coarsest m e - k)).map fun d => (d, coarsest m e - (k : ℤ)) with
  | none =>
    -- the last grid would have had a point
    have hlast := List.findSome?_eq_none_iff.mp hfound 23 (List.mem_range.mpr (by norm_num))
    rw [Option.map_eq_none_iff] at hlast
    exact absurd hlast (onGrid?_ne_none hm (coarsest_fine hparts hm))
  | some found =>
    obtain ⟨k, -, hk⟩ := List.exists_of_findSome?_eq_some hfound
    obtain ⟨c, hc, rfl⟩ := Option.map_eq_some_iff.mp hk
    simp only [hfound, Option.getD_some]
    exact holds_of_onGrid? hc

/-- The shortest decimal of a float; what is not finite counts as zero. -/
def decimal (tie : Tie) (x : Float) : Decimal :=
  match Binary64.ofFloat x with
  | .finite negative 0 _ => ⟨negative, 0, 0⟩
  | .finite negative m e => ⟨negative, (digits tie m e).1, (digits tie m e).2⟩
  | _ => ⟨false, 0, 0⟩

theorem decimal_pos_or (tie : Tie) (x : Float) :
    0 < (decimal tie x).mantissa ∨ (decimal tie x).mantissa = 0 ∧ (decimal tie x).exponent = 0 := by
  unfold decimal
  split
  · exact .inr ⟨rfl, rfl⟩
  · next negative m e hm hparts =>
    have hm := Nat.pos_of_ne_zero hm
    have hpos := (digits_spec tie (canonical_ofFloat hparts) hm).pos hm
    refine .inl (Nat.pos_of_ne_zero fun hzero => ?_)
    rw [show (digits tie m e).1 = 0 from hzero, Nat.cast_zero, zero_mul] at hpos
    exact lt_irrefl _ hpos
  · exact .inr ⟨rfl, rfl⟩

/-- **A float comes back from its digits**: a decimal with the sign and the value of its shortest
decimal is read as the float. -/
theorem toFloat_eq {x : Float} (h : x.isFinite = true) (tie : Tie) {w : Decimal}
    (hsign : w.negative = (decimal tie x).negative)
    (hvalue : (w.mantissa * 10 ^ w.exponent : ℚ) =
      (decimal tie x).mantissa * 10 ^ (decimal tie x).exponent) : w.toFloat = x := by
  obtain ⟨negative, m, e, hparts, -⟩ := exists_ofFloat h
  have hcanonical := canonical_ofFloat hparts
  apply ofFloat_injective ?_ hparts
  cases m with
  | zero =>
    have hdecimal : decimal tie x = ⟨negative, 0, 0⟩ := by
      unfold decimal
      rw [hparts]
      rfl
    have hten : (10 : ℚ) ^ w.exponent ≠ 0 := (zpow_pos (by norm_num) _).ne'
    rw [hdecimal, Nat.cast_zero, zero_mul, mul_eq_zero_iff_right hten, Nat.cast_eq_zero] at hvalue
    have he : e = leastExponent := le_antisymm
      (not_lt.mp fun hlt => absurd (hcanonical.hidden hlt) (by decide)) hcanonical.1.2
    rw [Decimal.toFloat_eq, if_pos (.inl hvalue), hsign, hdecimal, he]
    exact ofFloat_nearest_zero negative one_pos
  | succ m =>
    have hdecimal : decimal tie x =
        ⟨negative, (digits tie (m + 1) e).1, (digits tie (m + 1) e).2⟩ := by
      unfold decimal
      rw [hparts]
      rfl
    rw [hdecimal] at hsign hvalue
    have hholds := digits_spec tie hcanonical m.succ_pos
    rw [← hvalue] at hholds
    rw [toFloat_of_holds hcanonical m.succ_pos hholds, hsign]

end Toolpath.Shortest
