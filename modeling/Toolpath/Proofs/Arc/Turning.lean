import Toolpath.Bearing
import Toolpath.Proofs.RealScalar

/-!
# Turning about a pivot

The geometry of circular motion over the real numbers. A point goes round a pivot, clockwise or not;
a bearing that grows goes clockwise. A stretch by the same proportion along both axes takes turning
to turning, and turns its sense round if it mirrors one axis and not the other.

* `Offset.turned`, `Point.turned` — turning, which keeps the distance (`Offset.length_turned`)
* `Bearing.offset_turned` — turning adds to the bearing, or takes from it
* `Bearing.offset_add_turns` — whole turns change nothing
* `Stretch.offset_turned`, `Stretch.point_turned` — an even stretch takes turning to turning
* `Stretch.length_offset` — and multiplies lengths by its proportion
-/

namespace Toolpath

open Scalar RealScalar

/-! ## Offsets and points that go round -/

namespace Offset

/-- An offset turned by an angle, clockwise or not. -/
noncomputable def turned (v : Offset ℝ) (clockwise : Bool) (angle : ℝ) : Offset ℝ :=
  let s := if clockwise then -Real.sin angle else Real.sin angle
  ⟨v.x * Real.cos angle - v.y * s, v.x * s + v.y * Real.cos angle⟩

theorem length_nonneg (v : Offset ℝ) : 0 ≤ v.length := Real.sqrt_nonneg _

theorem length_sq (v : Offset ℝ) : v.length ^ 2 = v.x ^ 2 + v.y ^ 2 :=
  Real.sq_sqrt (by positivity)

/-- **Turning keeps the length.** -/
theorem length_turned (v : Offset ℝ) (clockwise : Bool) (angle : ℝ) :
    (v.turned clockwise angle).length = v.length := by
  have hone := Real.sin_sq_add_cos_sq angle
  have hsq : (v.turned clockwise angle).x ^ 2 + (v.turned clockwise angle).y ^ 2 =
      v.x ^ 2 + v.y ^ 2 := by
    cases clockwise with
    | true =>
      simp only [turned, if_true]
      linear_combination (v.x ^ 2 + v.y ^ 2) * hone
    | false =>
      simp only [turned, Bool.false_eq_true, if_false]
      linear_combination (v.x ^ 2 + v.y ^ 2) * hone
  exact congrArg Real.sqrt hsq

theorem turned_turned (v : Offset ℝ) (clockwise : Bool) (angle more : ℝ) :
    (v.turned clockwise angle).turned clockwise more = v.turned clockwise (angle + more) := by
  cases clockwise <;> simp [turned, Real.sin_add, Real.cos_add] <;> constructor <;> ring

theorem turned_zero (v : Offset ℝ) (clockwise : Bool) : v.turned clockwise 0 = v := by
  cases clockwise <;> simp [turned]

theorem turned_two_pi (v : Offset ℝ) (clockwise : Bool) : v.turned clockwise (2 * Real.pi) = v := by
  obtain ⟨x, y⟩ := v
  cases clockwise <;> simp [turned]

end Offset

namespace Point

/-- A point turned about a pivot by an angle, clockwise or not. -/
noncomputable def turned (p pivot : Point ℝ) (clockwise : Bool) (angle : ℝ) : Point ℝ :=
  pivot.shift ((pivot.wayTo p).turned clockwise angle)

/-- Seen from a pivot, a point lies in the direction of another. -/
def Towards (p pivot q : Point ℝ) : Prop :=
  ∃ r : ℝ, 0 ≤ r ∧ pivot.wayTo p = (pivot.wayTo q).scale r r

theorem wayTo_shift (p : Point ℝ) (v : Offset ℝ) : p.wayTo (p.shift v) = v := by
  obtain ⟨x, y⟩ := v
  simp [shift, wayTo]

theorem shift_wayTo (p q : Point ℝ) : p.shift (p.wayTo q) = q := by
  simp [shift, wayTo]

theorem wayTo_turned (p pivot : Point ℝ) (clockwise : Bool) (angle : ℝ) :
    pivot.wayTo (p.turned pivot clockwise angle) = (pivot.wayTo p).turned clockwise angle :=
  wayTo_shift _ _

end Point

/-! ## Bearings -/

namespace Bearing

/-- An offset is its length at its bearing. -/
theorem offset_ofOffset (v : Offset ℝ) : offset v.length (ofOffset v) = v := by
  obtain ⟨x, y⟩ := v
  -- a bearing is counted from the Y axis, so the components change places
  have hnorm : ‖(⟨y, x⟩ : ℂ)‖ = √(x ^ 2 + y ^ 2) := by
    rw [Complex.norm_def, Complex.normSq_mk]
    ring_nf
  have hsin := Complex.norm_mul_sin_arg ⟨y, x⟩
  have hcos := Complex.norm_mul_cos_arg ⟨y, x⟩
  rw [hnorm] at hsin hcos
  show (⟨√(x ^ 2 + y ^ 2) * Real.sin (Complex.arg ⟨y, x⟩),
    √(x ^ 2 + y ^ 2) * Real.cos (Complex.arg ⟨y, x⟩)⟩ : Offset ℝ) = ⟨x, y⟩
  rw [hsin, hcos]

/-- **To turn clockwise is to add to the bearing**, and to turn the other way is to take from it. -/
theorem offset_turned (length bearing : ℝ) (clockwise : Bool) (angle : ℝ) :
    (offset length bearing).turned clockwise angle =
      offset length (if clockwise then bearing + angle else bearing - angle) := by
  have hsin (x : ℝ) : Scalar.sin x = Real.sin x := rfl
  have hcos (x : ℝ) : Scalar.cos x = Real.cos x := rfl
  cases clockwise with
  | true =>
    simp only [Offset.turned, offset, if_true, hsin, hcos, Real.sin_add, Real.cos_add]
    congr 1 <;> ring
  | false =>
    simp only [Offset.turned, offset, Bool.false_eq_true, if_false, hsin, hcos, Real.sin_sub,
      Real.cos_sub]
    congr 1 <;> ring

/-- Whole turns make no difference to where a bearing leads. -/
theorem offset_add_turns (length bearing : ℝ) (n : ℤ) :
    offset length (bearing + n * (2 * Real.pi)) = offset length bearing := by
  show (⟨length * Real.sin _, length * Real.cos _⟩ : Offset ℝ) =
    ⟨length * Real.sin _, length * Real.cos _⟩
  rw [Real.sin_add_int_mul_two_pi, Real.cos_add_int_mul_two_pi]

end Bearing

/-! ## Even stretches -/

namespace Stretch

theorem point_shift (s : Stretch ℝ) (p : Point ℝ) (v : Offset ℝ) :
    s.point (p.shift v) = (s.point p).shift (s.offset v) := by
  simp only [point, Point.shift, offset, Offset.scale, Point.wayTo]
  congr 1 <;> ring

theorem wayTo_point (s : Stretch ℝ) (p q : Point ℝ) :
    (s.point p).wayTo (s.point q) = s.offset (p.wayTo q) := by
  simp only [point, Point.shift, offset, Offset.scale, Point.wayTo]
  congr 1 <;> ring

theorem offset_scale (s : Stretch ℝ) (v : Offset ℝ) (r : ℝ) :
    s.offset (v.scale r r) = (s.offset v).scale r r := by
  simp only [offset, Offset.scale]
  congr 1 <;> ring

theorem point_towards (s : Stretch ℝ) {p pivot q : Point ℝ} (h : p.Towards pivot q) :
    (s.point p).Towards (s.point pivot) (s.point q) := by
  obtain ⟨r, hr, hp⟩ := h
  refine ⟨r, hr, ?_⟩
  rw [wayTo_point, wayTo_point, hp, offset_scale]

variable {s : Stretch ℝ} {k : ℝ}

theorem length_offset (hk : 0 < k) (hx : |s.scale.x| = k) (hy : |s.scale.y| = k) (v : Offset ℝ) :
    (s.offset v).length = k * v.length := by
  have hx2 : s.scale.x ^ 2 = k ^ 2 := by rw [← sq_abs, hx]
  have hy2 : s.scale.y ^ 2 = k ^ 2 := by rw [← sq_abs, hy]
  have hsq : (v.x * s.scale.x) ^ 2 + (v.y * s.scale.y) ^ 2 = k ^ 2 * (v.x ^ 2 + v.y ^ 2) := by
    rw [mul_pow, mul_pow, hx2, hy2]
    ring
  show √((v.x * s.scale.x) ^ 2 + (v.y * s.scale.y) ^ 2) = k * √(v.x ^ 2 + v.y ^ 2)
  rw [hsq, Real.sqrt_mul (sq_nonneg k), Real.sqrt_sq hk.le]

/-- **An even stretch takes turning to turning.** Its sense is turned round if the stretch mirrors
one axis and not the other. -/
theorem offset_turned (hk : 0 < k) (hx : |s.scale.x| = k) (hy : |s.scale.y| = k) (v : Offset ℝ)
    (clockwise : Bool) (angle : ℝ) :
    s.offset (v.turned clockwise angle) =
      (s.offset v).turned (clockwise != (decide (s.scale.x < 0) != decide (s.scale.y < 0)))
        angle := by
  have hpos : ¬k < 0 := hk.le.not_gt
  -- the two proportions are `k` or `-k`, and they differ if the sense is turned round
  rcases eq_or_eq_neg_of_abs_eq hx with hx | hx <;>
    rcases eq_or_eq_neg_of_abs_eq hy with hy | hy <;>
    cases clockwise <;>
    simp [hx, hy, hk, hpos, offset, Offset.scale, Offset.turned] <;>
    constructor <;> ring

theorem point_turned (hk : 0 < k) (hx : |s.scale.x| = k) (hy : |s.scale.y| = k)
    (p pivot : Point ℝ) (clockwise : Bool) (angle : ℝ) :
    s.point (p.turned pivot clockwise angle) =
      (s.point p).turned (s.point pivot)
        (clockwise != (decide (s.scale.x < 0) != decide (s.scale.y < 0))) angle := by
  unfold Point.turned
  rw [point_shift, offset_turned hk hx hy, wayTo_point]

end Stretch

end Toolpath
