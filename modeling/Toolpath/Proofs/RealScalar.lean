import Toolpath.Machine
import Toolpath.Rejection
import Toolpath.Proofs.OrderedScalar
import Mathlib.Analysis.SpecialFunctions.Complex.Arg
import Mathlib.Analysis.SpecialFunctions.Trigonometric.Basic

/-!
# Real numbers as scalars

Exact arithmetic: what a path would be if no result were ever rounded. Every real number is finite,
and comparisons are those of the real line. The order tests are decided classically, so nothing here
can be run.

Numerals from two on and decimal numerals are the reals they name by definition; zero and one are
so by `real_zero` and `real_one`.
-/

namespace Toolpath

open Scalar

noncomputable instance : Scalar ℝ where
  beq a b := decide (a = b)
  ofNat n := (n : ℝ)
  ofScientific m s e := (OfScientific.ofScientific m s e : ℝ)
  decideLt _ _ := Classical.propDecidable _
  decideLe _ _ := Classical.propDecidable _
  pi := Real.pi
  abs x := |x|
  min a b := Min.min a b
  max a b := Max.max a b
  floor x := ((⌊x⌋ : ℤ) : ℝ)
  ceil x := ((⌈x⌉ : ℤ) : ℝ)
  toNat x := ⌊x⌋₊
  hypot x y := √(x ^ 2 + y ^ 2)
  sin := Real.sin
  cos := Real.cos
  atan2 y x := Complex.arg ⟨x, y⟩
  isFinite _ := true

namespace RealScalar

@[simp] theorem real_zero : (@OfNat.ofNat ℝ 0 (instOfNatScalar 0)) = 0 := Nat.cast_zero

@[simp] theorem real_one : (@OfNat.ofNat ℝ 1 (instOfNatScalar 1)) = 1 := Nat.cast_one

@[simp] theorem isFinite_real (x : ℝ) : isFinite x = true := rfl

@[simp] theorem ofNat_real (n : Nat) : (Scalar.ofNat n : ℝ) = n := rfl

theorem beq_real {x y : ℝ} : (x == y) = true ↔ x = y := decide_eq_true_iff

theorem bne_real {x y : ℝ} : (x != y) = true ↔ x ≠ y := by
  rw [bne, Bool.not_eq_true', ← Bool.not_eq_true, beq_real]

theorem bne_zero_real {x : ℝ} : (x != (@OfNat.ofNat ℝ 0 (instOfNatScalar 0))) = true ↔ x ≠ 0 := by
  rw [bne_real, real_zero]

theorem eq_of_alike {x y : ℝ} (h : Alike x y) : x = y := h.elim id beq_real.mp

theorem requireFinite_real (parameter : String) (x : ℝ) : requireFinite parameter x = pure x := rfl

theorem requirePresent_real {parameter : String} {value : Option ℝ} {x : ℝ} :
    requirePresent parameter value = .ok x ↔ value = some x := by
  cases value with
  | none => exact iff_of_false (fun h => nomatch h) (fun h => nomatch h)
  | some y =>
    exact ⟨fun h => congrArg some (Except.ok.inj h), fun h => congrArg _ (Option.some.inj h)⟩

theorem tolerance_pos : (0 : ℝ) < tolerance := by
  unfold tolerance
  norm_num

/-- An offset along the X axis is as long as its component. -/
theorem length_alongX (x : ℝ) : (⟨x, 0⟩ : Offset ℝ).length = |x| := by
  show √(x ^ 2 + 0 ^ 2) = |x|
  rw [zero_pow two_ne_zero, add_zero, Real.sqrt_sq_eq_abs]

theorem not_negligible_alongX {x : ℝ} (h : 1e-6 < |x|) : ¬(⟨x, 0⟩ : Offset ℝ).Negligible :=
  fun hnegligible => h.not_ge hnegligible.1

theorem near_refl (q : Point ℝ) : q.Near q := by
  have hzero (x : ℝ) : Scalar.Near x x := by
    show |x - x| ≤ tolerance
    rw [sub_self, abs_zero]
    exact tolerance_pos.le
  exact ⟨hzero q.x, hzero q.y⟩

theorem stepOver_standard : (Tool.standard : Tool ℝ).stepOver = 0.225 := by
  simp only [Tool.stepOver, Tool.standard]
  norm_num

/-- If there is room for a number of steps and not for one more, and it is within the limit, it is
the one that is counted. -/
theorem passCount_of_fits {span step : ℝ} {n : ℕ} (hstep : 0 < step) (hfits : n * step ≤ |span|)
    (hnext : |span| < (n + 1) * step) (hfew : n ≤ maxPasses) : passCount span step = .ok n := by
  have hfloor : ⌊|span| / step⌋ = (n : ℤ) := by
    rw [Int.floor_eq_iff, Int.cast_natCast]
    exact ⟨(le_div_iff₀ hstep).mpr hfits, (div_lt_iff₀ hstep).mpr hnext⟩
  have hcount : floor (Scalar.abs span / step) = (n : ℝ) := by
    show ((⌊|span| / step⌋ : ℤ) : ℝ) = n
    rw [hfloor, Int.cast_natCast]
  have hlimit : (n : ℝ) ≤ (Scalar.ofNat maxPasses : ℝ) := Nat.cast_le.mpr hfew
  have hpos : (@OfNat.ofNat ℝ 0 (instOfNatScalar 0)) < step := by rwa [real_zero]
  unfold passCount
  rw [if_pos hpos, hcount]
  refine (if_pos hlimit).trans ?_
  exact congrArg Except.ok (Nat.floor_natCast n)

/-- Steps that a pocket may take are counted. -/
theorem exists_passCount {span step : ℝ} (hstep : 0 < step) (hfew : |span| ≤ maxPasses * step) :
    ∃ n, passCount span step = .ok n := by
  have hquot : 0 ≤ |span| / step := div_nonneg (abs_nonneg span) hstep.le
  refine ⟨⌊|span| / step⌋₊, passCount_of_fits hstep ?_ ?_ ?_⟩
  · exact (le_div_iff₀ hstep).mp (Nat.floor_le hquot)
  · exact (div_lt_iff₀ hstep).mp (Nat.lt_floor_add_one _)
  · exact Nat.floor_le_of_le ((div_le_iff₀ hstep).mpr hfew)

/-- As many steps are counted as there is room for, and they may all be taken. -/
theorem of_passCount {span step : ℝ} {n : ℕ} (h : passCount span step = .ok n) :
    0 < step ∧ n * step ≤ |span| ∧ |span| < (n + 1) * step ∧ n ≤ maxPasses := by
  unfold passCount at h
  rw [real_zero] at h
  by_cases hstep : 0 < step
  · have hquot : 0 ≤ |span| / step := div_nonneg (abs_nonneg span) hstep.le
    have hfloor : (toNat (floor (|span| / step)) : ℕ) = ⌊|span| / step⌋₊ := by
      show ⌊((⌊|span| / step⌋ : ℤ) : ℝ)⌋₊ = ⌊|span| / step⌋₊
      rw [← natCast_floor_eq_intCast_floor hquot, Nat.floor_natCast]
    rw [if_pos hstep] at h
    by_cases hfew : floor (|span| / step) ≤ (Scalar.ofNat maxPasses : ℝ)
    · have hn : ⌊|span| / step⌋₊ = n := by
        rw [← hfloor]
        exact Except.ok.inj ((if_pos hfew).symm.trans h)
      refine ⟨hstep, ?_, ?_, ?_⟩
      · rw [← le_div_iff₀ hstep, ← hn]
        exact Nat.floor_le hquot
      · rw [← div_lt_iff₀ hstep, ← hn]
        exact Nat.lt_floor_add_one _
      · have hcount : ((⌊|span| / step⌋ : ℤ) : ℝ) ≤ (maxPasses : ℕ) := hfew
        rw [← natCast_floor_eq_intCast_floor hquot, hn] at hcount
        exact_mod_cast hcount
    · exact absurd ((if_neg hfew).symm.trans h) (by simp)
  · rw [if_neg hstep] at h
    cases h

/-- The last of a number of steps that is not beyond a length. -/
theorem exists_last_step {a step : ℝ} (hstep : 0 < step) (ha : 0 ≤ a) (last : ℕ) :
    ∃ j ≤ last, j * step ≤ a ∧ (j = last ∨ a < (j + 1) * step) := by
  have hfloor : (⌊a / step⌋₊ : ℝ) * step ≤ a :=
    (le_div_iff₀ hstep).mp (Nat.floor_le (div_nonneg ha hstep.le))
  rcases le_total last ⌊a / step⌋₊ with h | h
  · refine ⟨last, le_rfl, ?_, Or.inl rfl⟩
    have hcast : (last : ℝ) ≤ ⌊a / step⌋₊ := by exact_mod_cast h
    exact (mul_le_mul_of_nonneg_right hcast hstep.le).trans hfloor
  · exact ⟨⌊a / step⌋₊, h, hfloor, Or.inr ((div_lt_iff₀ hstep).mp (Nat.lt_floor_add_one _))⟩

end RealScalar

instance : OrderedScalar ℝ where
  le_trans hab hbc := le_trans (α := ℝ) hab hbc
  lt_iff := lt_iff_le_not_ge (α := ℝ)
  beq_iff := RealScalar.beq_real.trans le_antisymm_iff
  le_total _ _ := le_total (α := ℝ) _ _

end Toolpath
