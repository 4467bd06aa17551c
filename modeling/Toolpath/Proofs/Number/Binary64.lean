import Toolpath.Proofs.Number.Fixed

/-!
# The bits of a float

A float is a pattern of sixty-four bits, and what is put together as such a pattern comes apart into
the same sign, mantissa and exponent.

* `Binary64.ofFloat_ofBits` — a pattern of bits, taken apart
* `Binary64.exists_ofFloat` — a finite float has a mantissa and an exponent
* `Binary64.ofFloat_packed` — a mantissa and an exponent, put together and taken apart
* `Binary64.ofFloat_injective` — a finite float is known by its parts
-/

namespace Toolpath.Binary64

open Float.Model

/-! ## Bits -/

section

variable (v : BitVec 64)

theorem toNat_unpackMantissa :
    (@UnpackedFloat.unpackMantissa Format.binary64 v).toNat = v.toNat % 2 ^ 52 := by
  have hextract : (@UnpackedFloat.unpackMantissa Format.binary64 v).toNat =
      (v.extractLsb 51 0).toNat := rfl
  rw [hextract, BitVec.extractLsb_toNat]
  rfl

theorem toNat_unpackExponent :
    (@UnpackedFloat.unpackExponent Format.binary64 v).toNat = v.toNat / 2 ^ 52 % 2 ^ 11 := by
  have hextract : (@UnpackedFloat.unpackExponent Format.binary64 v).toNat =
      (v.extractLsb 62 52).toNat := rfl
  rw [hextract, BitVec.extractLsb_toNat, Nat.shiftRight_eq_div_pow]

theorem toNat_unpackSign :
    (@UnpackedFloat.unpackSign Format.binary64 v).toNat = v.toNat / 2 ^ 63 := by
  have hextract : (@UnpackedFloat.unpackSign Format.binary64 v).toNat =
      (v.extractLsb 63 63).toNat := rfl
  have hlt : v.toNat < 2 ^ 64 := v.isLt
  rw [hextract, BitVec.extractLsb_toNat, Nat.shiftRight_eq_div_pow]
  omega

theorem toNat_append {m n : ℕ} (x : BitVec m) (y : BitVec n) :
    (x ++ y).toNat = x.toNat * 2 ^ n + y.toNat := by
  rw [BitVec.toNat_append, ← Nat.shiftLeft_add_eq_or_of_lt y.isLt, Nat.shiftLeft_eq]

theorem toBitVec_ofBitVec (s : BitVec 1) : (UnpackedFloat.Sign.ofBitVec s).toBitVec = s := by
  revert s
  decide

theorem packComponents_unpack :
    UnpackedFloat.packComponents Format.binary64
      (UnpackedFloat.Sign.ofBitVec (@UnpackedFloat.unpackSign Format.binary64 v))
      (@UnpackedFloat.unpackExponent Format.binary64 v)
      (@UnpackedFloat.unpackMantissa Format.binary64 v) = v := by
  apply BitVec.eq_of_toNat_eq
  rw [UnpackedFloat.packComponents, toNat_append, toNat_append, toBitVec_ofBitVec,
    toNat_unpackSign, toNat_unpackExponent, toNat_unpackMantissa]
  show (v.toNat / 2 ^ 63 * 2 ^ 11 + v.toNat / 2 ^ 52 % 2 ^ 11) * 2 ^ 52 + v.toNat % 2 ^ 52 = _
  omega

theorem pack_subnormal (s : UnpackedFloat.Sign) {m : BitVec 52} (hm : 0 < m.toNat) {e : ℤ}
    (he : e = -1074) :
    UnpackedFloat.pack Format.binary64 (.finite s m.toNat e hm) =
      UnpackedFloat.packComponents Format.binary64 s 0#11 m := by
  have hlog : m.toNat.log2 + 1 ≠ 53 := by
    have hlt : m.toNat.log2 < 52 := (Nat.log2_lt hm.ne').mpr m.isLt
    omega
  have hsmall : ¬2048 ≤ (e + 1023 + 52).toNat + 1 := by omega
  have hmantissa : BitVec.ofNat 52 m.toNat = m := by
    rw [BitVec.ofNat_toNat, BitVec.setWidth_eq]
  refine (if_neg hsmall).trans ((if_neg hlog).trans ?_)
  exact congrArg _ hmantissa

theorem pack_normal (s : UnpackedFloat.Sign) {f : BitVec 11} (hf : f.toNat < 2047) (m : BitVec 52)
    {e : ℤ} (he : e = f.toNat - 1075) (hm : 0 < (1#1 ++ m).toNat) :
    UnpackedFloat.pack Format.binary64 (.finite s (1#1 ++ m).toNat e hm) =
      UnpackedFloat.packComponents Format.binary64 s f m := by
  have hsum : (1#1 ++ m).toNat = 2 ^ 52 + m.toNat := by
    rw [toNat_append]
    rfl
  have hlt : m.toNat < 2 ^ 52 := m.isLt
  have hlog : (1#1 ++ m).toNat.log2 + 1 = 53 := by
    have hlog2 : (1#1 ++ m).toNat.log2 = 52 :=
      (Nat.log2_eq_iff (by omega)).mpr ⟨by omega, by omega⟩
    rw [hlog2]
  have hbiased : (e + 1023 + 52).toNat = f.toNat := by omega
  have hsmall : ¬2048 ≤ (e + 1023 + 52).toNat + 1 := by omega
  have hfield : BitVec.ofNat 11 (e + 1023 + 52).toNat = f := by
    rw [hbiased, BitVec.ofNat_toNat, BitVec.setWidth_eq]
  have hmantissa : BitVec.ofNat 52 (1#1 ++ m).toNat = m := by
    apply BitVec.eq_of_toNat_eq
    rw [BitVec.toNat_ofNat, hsum]
    omega
  refine (if_neg hsmall).trans ((if_pos hlog).trans ?_)
  show UnpackedFloat.packComponents Format.binary64 s (BitVec.ofNat 11 (e + 1023 + 52).toNat)
    (BitVec.ofNat 52 (1#1 ++ m).toNat) = _
  rw [hfield, hmantissa]

/-- A pattern of bits that is no infinity and no NaN is kept. -/
theorem pack_unpack (h : @UnpackedFloat.unpackExponent Format.binary64 v ≠ -1#11) :
    UnpackedFloat.pack Format.binary64 (UnpackedFloat.unpack Format.binary64 v) = v := by
  let s := UnpackedFloat.Sign.ofBitVec (@UnpackedFloat.unpackSign Format.binary64 v)
  let f : BitVec 11 := @UnpackedFloat.unpackExponent Format.binary64 v
  let m : BitVec 52 := @UnpackedFloat.unpackMantissa Format.binary64 v
  have hparts : UnpackedFloat.packComponents Format.binary64 s f m = v := packComponents_unpack v
  rcases eq_or_ne f 0#11 with hzero | hnormal
  · rw [hzero] at hparts
    rcases eq_or_ne m 0#52 with hnone | hsome
    · have hunpack : UnpackedFloat.unpack Format.binary64 v = .zero s :=
        (if_neg h).trans ((if_pos hzero).trans (dif_pos hnone))
      rw [hnone] at hparts
      rw [hunpack]
      exact hparts
    · have hm : 0 < m.toNat :=
        Nat.pos_of_ne_zero fun h0 => hsome (BitVec.eq_of_toNat_eq h0)
      have hunpack : UnpackedFloat.unpack Format.binary64 v =
          .finite s m.toNat ((f.toNat : ℤ) - (1023 + 52) + 1) hm :=
        (if_neg h).trans ((if_pos hzero).trans (dif_neg hsome))
      have he : (f.toNat : ℤ) - (1023 + 52) + 1 = -1074 := by
        rw [hzero]
        rfl
      rw [hunpack, pack_subnormal s hm he, hparts]
  · have hf : f.toNat < 2047 := by
      have hlt : f.toNat < 2048 := f.isLt
      have hne : f.toNat ≠ 2047 := fun hones => h (BitVec.eq_of_toNat_eq hones)
      omega
    have hm : 0 < (1#1 ++ m).toNat := by
      rw [toNat_append]
      exact Nat.add_pos_left (by decide) _
    have hunpack : UnpackedFloat.unpack Format.binary64 v =
        .finite s (1#1 ++ m).toNat ((f.toNat : ℤ) - (1023 + 52)) hm :=
      (if_neg h).trans (if_neg hnormal)
    rw [hunpack, pack_normal s hf m (by omega) hm, hparts]

end

theorem toNat_toBits_ofBits {n : ℕ} (hn : n < 2 ^ 64)
    (hfield : n / hiddenBit % (greatestField + 1) ≠ greatestField) :
    (Float.ofBits (UInt64.ofNat n)).toBits.toNat = n := by
  have htoNat : (UInt64.ofNat n).toNat = n := by
    rw [UInt64.toNat_ofNat']
    exact Nat.mod_eq_of_lt hn
  have hspecial : @UnpackedFloat.unpackExponent Format.binary64 (UInt64.ofNat n).toBitVec ≠
      -1#11 := by
    intro hones
    have hones : n / 2 ^ 52 % 2 ^ 11 = 2047 := by
      rw [← htoNat]
      exact (toNat_unpackExponent _).symm.trans (congrArg BitVec.toNat hones)
    exact hfield hones
  have hkept : (Float.ofBits (UInt64.ofNat n)).toBits = UInt64.ofNat n :=
    congrArg UInt64.ofBitVec (pack_unpack _ hspecial)
  rw [hkept, htoNat]

/-- A sign in front of other bits leaves them as they are. -/
theorem signed_bits (negative : Bool) {bits : ℕ} (h : bits < greatestField * hiddenBit) :
    let n := (if negative then signBit else 0) + bits
    n < 2 ^ 64 ∧ decide (signBit ≤ n) = negative ∧
      n / hiddenBit % (greatestField + 1) = bits / hiddenBit ∧
      n % hiddenBit = bits % hiddenBit := by
  have hhidden : hiddenBit = 4503599627370496 := rfl
  have hsignBit : signBit = 9223372036854775808 := rfl
  have hgreatest : greatestField = 2047 := rfl
  rw [hhidden, hgreatest] at h
  rw [hhidden, hsignBit, hgreatest]
  cases negative with
  | true =>
    refine ⟨?_, decide_eq_true ?_, ?_, ?_⟩ <;> rw [if_pos rfl] <;> omega
  | false =>
    refine ⟨?_, decide_eq_false ?_, ?_, ?_⟩ <;> rw [if_neg Bool.false_ne_true] <;> omega

/-- A pattern of bits, taken apart. -/
theorem ofFloat_ofBits (negative : Bool) {bits : ℕ} (h : bits < greatestField * hiddenBit) :
    ofFloat (Float.ofBits (UInt64.ofNat ((if negative then signBit else 0) + bits))) =
      if bits / hiddenBit = 0 then .finite negative (bits % hiddenBit) leastExponent
      else .finite negative (hiddenBit + bits % hiddenBit) ((bits / hiddenBit : ℕ) - 1075) := by
  obtain ⟨hlt, hsign, hfield, hfraction⟩ := signed_bits negative h
  have hbelow : bits / hiddenBit ≠ greatestField :=
    (Nat.div_lt_of_lt_mul (by rwa [mul_comm])).ne
  have hkept := toNat_toBits_ofBits hlt (hfield ▸ hbelow)
  unfold ofFloat
  simp only [hkept, hsign, hfield, hfraction, if_neg hbelow]

/-! ## Finite floats -/

/-- The mantissas and exponents of floats. -/
def Representable (m : ℕ) (e : ℤ) : Prop := m < 2 * hiddenBit ∧ leastExponent ≤ e

/-- A finite float has a mantissa and an exponent. -/
theorem exists_ofFloat {x : Float} (h : x.isFinite = true) :
    ∃ negative m e, ofFloat x = .finite negative m e ∧ Representable m e ∧ e ≤ 971 := by
  have hfield : x.toBits.toNat / hiddenBit % (greatestField + 1) ≠ greatestField := by
    intro hfield
    have hones : @UnpackedFloat.unpackExponent Format.binary64 x.toModel.toBits.toBitVec =
        -1#11 := by
      apply BitVec.eq_of_toNat_eq
      rw [toNat_unpackExponent]
      exact hfield
    have hunpack : x.toModel.unpack =
        if @UnpackedFloat.unpackMantissa Format.binary64 x.toModel.toBits.toBitVec = 0#52 then
          .infinity (UnpackedFloat.Sign.ofBitVec
            (@UnpackedFloat.unpackSign Format.binary64 x.toModel.toBits.toBitVec))
        else .notANumber := if_pos hones
    have hspecial : x.toModel.unpack.isFinite = false := by
      rw [hunpack]
      split <;> rfl
    exact Bool.false_ne_true (hspecial.symm.trans h)
  have hless : x.toBits.toNat / hiddenBit % (greatestField + 1) < greatestField + 1 :=
    Nat.mod_lt _ (Nat.succ_pos _)
  have hfraction : x.toBits.toNat % hiddenBit < hiddenBit := Nat.mod_lt _ (by decide)
  have hgreatest : greatestField = 2047 := rfl
  unfold ofFloat
  simp only [if_neg hfield]
  split
  · exact ⟨_, _, _, rfl, ⟨by omega, le_refl _⟩, by decide⟩
  · refine ⟨_, _, _, rfl, ⟨by omega, ?_⟩, by omega⟩
    rw [leastExponent]
    omega

/-- The mantissas and exponents that floats are taken apart into: only at the least exponent the
hidden bit can be missing. -/
structure Canonical (m : ℕ) (e : ℤ) : Prop extends toRepresentable : Representable m e where
  le_greatest : e ≤ 971
  hidden : leastExponent < e → hiddenBit ≤ m

theorem canonical_ofFloat {x : Float} {negative : Bool} {m : ℕ} {e : ℤ}
    (h : ofFloat x = .finite negative m e) : Canonical m e := by
  have hgreatest : greatestField = 2047 := rfl
  have hfraction : x.toBits.toNat % hiddenBit < hiddenBit := Nat.mod_lt _ (by decide)
  have hless : x.toBits.toNat / hiddenBit % (greatestField + 1) < greatestField + 1 :=
    Nat.mod_lt _ (Nat.succ_pos _)
  unfold ofFloat at h
  simp only at h
  split at h
  · split at h <;> cases h
  · -- the field of the exponent tells whether there is a hidden bit
    split at h
    · cases h
      exact ⟨⟨by omega, le_refl _⟩, by decide, fun hlt => absurd hlt (lt_irrefl _)⟩
    · cases h
      exact ⟨⟨by omega, by rw [leastExponent]; omega⟩, by omega, fun _ => Nat.le_add_right _ _⟩

theorem exact_finite (negative : Bool) (m : ℕ) (e : ℤ) :
    ∃ n d, (Binary64.finite negative m e).exact = .finite negative n d ∧ 0 < d ∧
      (n / d : ℚ) = m * 2 ^ e := by
  cases e with
  | ofNat e =>
    refine ⟨_, _, rfl, one_pos, ?_⟩
    rw [Nat.cast_one, div_one, Int.ofNat_eq_natCast, zpow_natCast]
    exact_mod_cast Nat.cast_mul m (2 ^ e)
  | negSucc e =>
    refine ⟨_, _, rfl, Nat.pow_pos two_pos, ?_⟩
    rw [zpow_negSucc, ← div_eq_mul_inv]
    congr 1
    exact Nat.cast_pow 2 (e + 1)

theorem isFinite_exact {x : Float} (h : x.isFinite = true) : (ExactValue.exact x).IsFinite := by
  obtain ⟨negative, m, e, hparts, -⟩ := exists_ofFloat h
  obtain ⟨n, d, hexact, hd, -⟩ := exact_finite negative m e
  show (ofFloat x).exact.IsFinite
  rw [hparts, hexact]
  exact hd

/-! ## Putting together -/

/-- The bits of a mantissa and an exponent. -/
def packed (m : ℕ) (e : ℤ) : ℕ :=
  if m < hiddenBit then m else m - hiddenBit + (e + 1075).toNat * hiddenBit

theorem packed_normal {m : ℕ} (hm : hiddenBit ≤ m) (hfits : m < 2 * hiddenBit) (e : ℤ) :
    packed m e / hiddenBit = (e + 1075).toNat ∧ packed m e % hiddenBit = m - hiddenBit := by
  have hhidden : hiddenBit = 4503599627370496 := rfl
  have hbits : packed m e = m - hiddenBit + (e + 1075).toNat * hiddenBit :=
    if_neg (Nat.not_lt.mpr hm)
  rw [hbits, hhidden]
  omega

theorem packed_carry (e : ℤ) :
    packed (2 * hiddenBit) e / hiddenBit = (e + 1075).toNat + 1 ∧
      packed (2 * hiddenBit) e % hiddenBit = 0 := by
  have hhidden : hiddenBit = 4503599627370496 := rfl
  have hbits : packed (2 * hiddenBit) e =
      2 * hiddenBit - hiddenBit + (e + 1075).toNat * hiddenBit := if_neg (by decide)
  rw [hbits, hhidden]
  omega

/-- A mantissa that has carried is the least one with a hidden bit, one exponent up. -/
theorem packed_double {e : ℤ} (he : leastExponent < e) :
    packed (2 * hiddenBit) (e - 1) = packed hiddenBit e := by
  have hhidden : hiddenBit = 4503599627370496 := rfl
  have hleast : leastExponent = -1074 := rfl
  unfold packed
  rw [hhidden]
  split <;> split <;> omega

theorem packed_lt {m : ℕ} {e : ℤ} (hm : m ≤ 2 * hiddenBit)
    (hhigh : e < 971 ∨ e = 971 ∧ m < 2 * hiddenBit) : packed m e < greatestField * hiddenBit := by
  have hhidden : hiddenBit = 4503599627370496 := rfl
  have hgreatest : greatestField = 2047 := rfl
  unfold packed
  rw [hhidden, hgreatest]
  split <;> omega

/-- The parts of a float are put together to it. -/
theorem toNat_toBits {x : Float} {negative : Bool} {m : ℕ} {e : ℤ}
    (h : ofFloat x = .finite negative m e) :
    x.toBits.toNat = (if negative then signBit else 0) + packed m e := by
  have hhidden : hiddenBit = 4503599627370496 := rfl
  have hsignBit : signBit = 9223372036854775808 := rfl
  have hgreatest : greatestField = 2047 := rfl
  have hlt : x.toBits.toNat < 2 ^ 64 := x.toBits.toNat_lt
  generalize hbits : x.toBits.toNat = bits at hlt
  unfold ofFloat at h
  simp only [hbits] at h
  rw [hgreatest, hsignBit, hhidden] at h
  unfold packed
  rw [hsignBit, hhidden]
  split at h
  · split at h <;> cases h
  · split at h
    all_goals
      cases h
      simp only [decide_eq_true_eq]
      split <;> split <;> omega

/-- A finite float is known by its parts. -/
theorem ofFloat_injective {x y : Float} {negative : Bool} {m : ℕ} {e : ℤ}
    (hx : ofFloat x = .finite negative m e) (hy : ofFloat y = .finite negative m e) : x = y := by
  have hbits : x.toBits = y.toBits :=
    UInt64.toNat_inj.mp ((toNat_toBits hx).trans (toNat_toBits hy).symm)
  rcases x with ⟨⟨bits, hvalid⟩⟩
  rcases y with ⟨⟨bits', hvalid'⟩⟩
  obtain rfl : bits = bits' := hbits
  rfl

theorem Canonical.packed_lt {m : ℕ} {e : ℤ} (h : Canonical m e) :
    packed m e < greatestField * hiddenBit := by
  refine Binary64.packed_lt h.1.1.le ?_
  rcases lt_or_eq_of_le h.le_greatest with hlt | heq
  · exact .inl hlt
  · exact .inr ⟨heq, h.1.1⟩

/-- What is put together of the parts of a float is taken apart into them. -/
theorem Canonical.ofFloat_packed {m : ℕ} {e : ℤ} (h : Canonical m e) (negative : Bool) :
    ofFloat (Float.ofBits (UInt64.ofNat ((if negative then signBit else 0) + packed m e))) =
      .finite negative m e := by
  have hleast : leastExponent = -1074 := rfl
  rw [ofFloat_ofBits negative h.packed_lt]
  rcases lt_or_ge m hiddenBit with hsub | hnormal
  · have hbits : packed m e = m := if_pos hsub
    have he : e = leastExponent :=
      le_antisymm (not_lt.mp fun hlt => absurd hsub (h.hidden hlt).not_gt) h.1.2
    rw [hbits, if_pos (Nat.div_eq_of_lt hsub), Nat.mod_eq_of_lt hsub, he]
  · obtain ⟨hdiv, hmod⟩ := packed_normal hnormal h.1.1 e
    have hle : leastExponent ≤ e := h.1.2
    have hm' : hiddenBit + (m - hiddenBit) = m := Nat.add_sub_cancel' hnormal
    have he' : (((e + 1075).toNat : ℕ) : ℤ) - 1075 = e := by omega
    rw [hdiv, hmod, if_neg (by omega), hm', he']

/-- A mantissa that fits keeps its value, and so does one that carries into the exponent. -/
theorem ofFloat_packed (negative : Bool) {m : ℕ} {e : ℤ} (hm : m ≤ 2 * hiddenBit)
    (hlow : leastExponent ≤ e) (hsmall : m < hiddenBit → e = leastExponent)
    (hhigh : e < 971 ∨ e = 971 ∧ m < 2 * hiddenBit) :
    ∃ m' e',
      ofFloat (Float.ofBits (UInt64.ofNat ((if negative then signBit else 0) + packed m e))) =
        .finite negative m' e' ∧ (m' : ℚ) * 2 ^ e' = m * 2 ^ e := by
  rcases lt_or_eq_of_le hm with hfits | rfl
  · have hhidden : leastExponent < e → hiddenBit ≤ m :=
      fun hlt => not_lt.mp fun hsub => hlt.ne' (hsmall hsub)
    have hparts : Canonical m e := ⟨⟨hfits, hlow⟩, by omega, hhidden⟩
    exact ⟨_, _, hparts.ofFloat_packed negative, rfl⟩
  · have hleast : leastExponent = -1074 := rfl
    obtain ⟨hdiv, hmod⟩ := packed_carry e
    have he' : (((e + 1075).toNat + 1 : ℕ) : ℤ) - 1075 = e + 1 := by omega
    rw [ofFloat_ofBits negative (packed_lt hm hhigh), hdiv, hmod, if_neg (by omega), he']
    refine ⟨_, _, rfl, ?_⟩
    rw [zpow_add_one₀ two_ne_zero]
    push_cast
    ring

end Toolpath.Binary64
