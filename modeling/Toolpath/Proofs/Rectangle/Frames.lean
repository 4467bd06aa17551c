import Mathlib.Analysis.Real.Sqrt
import Toolpath.Proofs.RealScalar

/-!
# Nested frames

The plane geometry of clearing a rectangle. The rectangle has one corner at the origin and its sides
along the axes. Frames lie inside each other in it, one step apart, and a diagonal joins their first
corners. Between two frames, points near a side are not far from one of the two; the inner one is
rounded off in the corners, where no straight way leads, and inside the last frame there is nothing.

* `OnFrame`, `OnNest` — the frames, and the frames with the diagonal
* `nearFrames_of_inside` — what is within a radius of the frames
* `middle_far`, `corner_far` — what is not
-/

namespace Toolpath

open RealScalar

/-- On the outline of a rectangle that has been made smaller on every side. -/
def OnFrame (width height inset a b : ℝ) : Prop :=
  (a = inset ∨ a = width - inset) ∧ inset ≤ b ∧ b ≤ height - inset ∨
    (b = inset ∨ b = height - inset) ∧ inset ≤ a ∧ a ≤ width - inset

/-- On one of the frames, of which the last is the one with the number `last`, or on the diagonal
between them. -/
def OnNest (width height step : ℝ) (last : ℕ) (a b : ℝ) : Prop :=
  (∃ j ≤ last, OnFrame width height (j * step) a b) ∨ a = b ∧ 0 ≤ a ∧ a ≤ last * step

/-- Within a radius of one of the frames. -/
def NearFrames (width height step : ℝ) (last : ℕ) (radius a b : ℝ) : Prop :=
  ∃ j ≤ last, ∃ a' b', OnFrame width height (j * step) a' b' ∧
    (a - a') ^ 2 + (b - b') ^ 2 ≤ radius ^ 2

variable {width height step radius : ℝ} {last : ℕ} {a b : ℝ}

/-! ## Symmetry -/

theorem OnFrame.swap {inset : ℝ} (h : OnFrame width height inset a b) :
    OnFrame height width inset b a := Or.symm h

theorem OnFrame.flip {inset : ℝ} (h : OnFrame width height inset a b) :
    OnFrame width height inset (width - a) b := by
  rcases h with ⟨ha | ha, hb⟩ | ⟨hb, ha, ha'⟩
  · exact Or.inl ⟨Or.inr (by rw [ha]), hb⟩
  · exact Or.inl ⟨Or.inl (by rw [ha, sub_sub_cancel]), hb⟩
  · exact Or.inr ⟨hb, by linarith, by linarith⟩

theorem NearFrames.swap (h : NearFrames height width step last radius b a) :
    NearFrames width height step last radius a b := by
  obtain ⟨j, hj, b', a', hframe, hnear⟩ := h
  exact ⟨j, hj, a', b', hframe.swap, by rwa [add_comm]⟩

theorem NearFrames.flip (h : NearFrames width height step last radius (width - a) b) :
    NearFrames width height step last radius a b := by
  obtain ⟨j, hj, a', b', hframe, hnear⟩ := h
  refine ⟨j, hj, width - a', b', hframe.flip, ?_⟩
  have hsame : a - (width - a') = -(width - a - a') := by ring
  rwa [hsame, neg_sq]

/-! ## What is cleared -/

/-- A side of a frame further inside is shorter at each end by no more than it lies further
inside. -/
theorem abs_sub_clamp_le {inset : ℝ} (hfits : inset ≤ height - inset) (hinset : a ≤ inset)
    (hab : a ≤ b) (hb : b ≤ height - a) :
    |b - max inset (min b (height - inset))| ≤ inset - a := by
  rw [abs_le]
  rcases le_total b (height - inset) with h | h
  · rw [min_eq_left h]
    rcases le_total inset b with h' | h'
    · rw [max_eq_right h']
      constructor <;> linarith
    · rw [max_eq_left h']
      constructor <;> linarith
  · rw [min_eq_right h, max_eq_right hfits]
    constructor <;> linarith

/-- What lies beyond the reach of the frame outside is within that of the frame inside, even in a
corner. -/
theorem sq_add_sq_le_of_beyond {gap x y : ℝ} (hstep : 0 < step) (hradius : (2 - √2) * step ≤ radius)
    (hbeyond : radius < step - gap) (hgap : 0 ≤ gap) (hx : |x| ≤ gap) (hy : |y| ≤ gap) :
    x ^ 2 + y ^ 2 ≤ radius ^ 2 := by
  have hroot : √2 ^ 2 = (2 : ℝ) := Real.sq_sqrt two_pos.le
  have hnonneg : 0 ≤ √2 * gap := mul_nonneg (Real.sqrt_nonneg 2) hgap
  have hdist : √2 * gap ≤ radius := by nlinarith [Real.sqrt_nonneg (2 : ℝ)]
  calc x ^ 2 + y ^ 2 ≤ gap ^ 2 + gap ^ 2 := add_le_add (sq_le_sq.mpr (by rwa [abs_of_nonneg hgap]))
        (sq_le_sq.mpr (by rwa [abs_of_nonneg hgap]))
    _ = (√2 * gap) ^ 2 := by rw [mul_pow, hroot, two_mul]
    _ ≤ radius ^ 2 := pow_le_pow_left₀ hnonneg hdist 2

/-- Between two frames: from the first side on, a point is near enough to the outer frame or to the
inner one. -/
theorem nearFrames_of_first_side (hstep : 0 < step) (ha : 0 ≤ a) (hab : a ≤ b) (hb : b ≤ height - a)
    (hfitsx : last * step ≤ width - last * step) (hfitsy : last * step ≤ height - last * step)
    (hcorner : last = 0 ∨ (2 - √2) * step ≤ radius) (hmiddle : a - last * step ≤ radius) :
    NearFrames width height step last radius a b := by
  obtain ⟨j, hj, houter, hinner⟩ := exists_last_step hstep ha last
  by_cases hnear : a - j * step ≤ radius
  · refine ⟨j, hj, j * step, b, Or.inl ⟨Or.inl rfl, houter.trans hab, by linarith⟩, ?_⟩
    rw [sub_self, zero_pow two_ne_zero, add_zero]
    exact pow_le_pow_left₀ (by linarith) hnear 2
  · -- the point is far from the outer frame, so it is near the inner one
    rcases hinner with rfl | hinner
    · exact absurd hmiddle hnear
    · have hlt : j < last := by
        refine lt_of_le_of_ne hj ?_
        rintro rfl
        exact hnear hmiddle
      have hsize := hcorner.resolve_left (by omega)
      set inset := ((j + 1 : ℕ) : ℝ) * step with hset
      have hinset : inset = j * step + step := by
        rw [hset, Nat.cast_succ]
        ring
      have hfits : inset ≤ last * step := by
        rw [hset]
        exact mul_le_mul_of_nonneg_right (by exact_mod_cast hlt) hstep.le
      refine ⟨j + 1, hlt, inset, max inset (min b (height - inset)),
        Or.inl ⟨Or.inl rfl, le_max_left _ _, max_le (by linarith) (min_le_right _ _)⟩, ?_⟩
      have hgap : |a - inset| ≤ inset - a := by
        rw [abs_sub_comm, abs_of_nonneg (by linarith)]
      exact sq_add_sq_le_of_beyond hstep hsize (by linarith) (by linarith) hgap
        (abs_sub_clamp_le (by linarith) (by linarith) hab hb)

/-- The quarter next to the origin. -/
theorem nearFrames_of_quarter (hstep : 0 < step) (ha : 0 ≤ a) (hb : 0 ≤ b) (ha' : a ≤ width - a)
    (hb' : b ≤ height - b) (hfits : last * step ≤ min width height / 2)
    (hcorner : last = 0 ∨ (2 - √2) * step ≤ radius)
    (hmiddle : min width height / 2 - last * step ≤ radius) :
    NearFrames width height step last radius a b := by
  have hwidth : min width height ≤ width := min_le_left _ _
  have hheight : min width height ≤ height := min_le_right _ _
  rcases le_total a b with h | h
  · have hdepth : a ≤ min width height / 2 := by
      rcases min_choice width height with h' | h' <;> rw [h'] <;> linarith
    exact nearFrames_of_first_side hstep ha h (by linarith) (by linarith) (by linarith) hcorner
      (by linarith)
  · have hdepth : b ≤ min width height / 2 := by
      rcases min_choice width height with h' | h' <;> rw [h'] <;> linarith
    exact (nearFrames_of_first_side hstep hb h (by linarith) (by linarith) (by linarith) hcorner
      (by linarith)).swap

/-- **What nested frames clear.** If the radius reaches across the corners between two frames and
from the last frame to the middle, every point of the rectangle is within that radius of a frame. -/
theorem nearFrames_of_inside (hstep : 0 < step) (ha : 0 ≤ a) (ha' : a ≤ width) (hb : 0 ≤ b)
    (hb' : b ≤ height) (hfits : last * step ≤ min width height / 2)
    (hcorner : last = 0 ∨ (2 - √2) * step ≤ radius)
    (hmiddle : min width height / 2 - last * step ≤ radius) :
    NearFrames width height step last radius a b := by
  have hquarter {a b : ℝ} (ha : 0 ≤ a) (hb : 0 ≤ b) (ha' : a ≤ width - a) (hb' : b ≤ height - b) :
      NearFrames width height step last radius a b :=
    nearFrames_of_quarter hstep ha hb ha' hb' hfits hcorner hmiddle
  -- by symmetry the point may be taken to lie next to the first side
  have hhalf {a : ℝ} (ha : 0 ≤ a) (ha' : a ≤ width - a) :
      NearFrames width height step last radius a b := by
    rcases le_total b (height - b) with h | h
    · exact hquarter ha hb ha' h
    · refine NearFrames.swap (NearFrames.flip (NearFrames.swap ?_))
      exact hquarter ha (by linarith) ha' (by linarith)
  rcases le_total a (width - a) with h | h
  · exact hhalf ha h
  · exact NearFrames.flip (hhalf (by linarith) (by linarith))

/-! ## What is left -/

/-- In a corner, half the diagonal way between two frames lies no more than one step inside the
outer one. -/
theorem gap_bounds (hstep : 0 < step) : 0 ≤ (2 - √2) * step ∧ (2 - √2) * step ≤ step := by
  have hone : (1 : ℝ) < √2 := Real.lt_sqrt_of_sq_lt (by norm_num)
  have htwo : √2 < (2 : ℝ) := (Real.sqrt_lt' two_pos).mpr (by norm_num)
  exact ⟨mul_nonneg (by linarith) hstep.le, by nlinarith⟩

/-- The middle is as far from all frames and from the diagonal as from the last frame. -/
theorem middle_far (hstep : 0 < step) (h : OnNest width height step last a b) :
    min width height / 2 - last * step ≤ |width / 2 - a| ∨
      min width height / 2 - last * step ≤ |height / 2 - b| := by
  have hwidth : min width height ≤ width := min_le_left _ _
  have hheight : min width height ≤ height := min_le_right _ _
  rcases h with ⟨j, hj, hframe⟩ | ⟨-, -, ha⟩
  · have hinset : j * step ≤ last * step :=
      mul_le_mul_of_nonneg_right (by exact_mod_cast hj) hstep.le
    rcases hframe with ⟨ha | ha, -⟩ | ⟨hb | hb, -⟩
    · exact Or.inl (le_abs.mpr (Or.inl (by linarith)))
    · exact Or.inl (le_abs.mpr (Or.inr (by linarith)))
    · exact Or.inr (le_abs.mpr (Or.inl (by linarith)))
    · exact Or.inr (le_abs.mpr (Or.inr (by linarith)))
  · exact Or.inl (le_abs.mpr (Or.inl (by linarith)))

/-- A frame that lies so far inside ends there on the far sides as well. -/
theorem OnFrame.le_sub {inset : ℝ} (h : OnFrame width height inset a b) (hinset : step ≤ inset)
    (hfitsx : inset ≤ width - inset) (hfitsy : inset ≤ height - inset) :
    a ≤ width - step ∧ b ≤ height - step := by
  rcases h with ⟨ha | ha, hb, hb'⟩ | ⟨hb | hb, ha, ha'⟩ <;> constructor <;> linarith

/-- A point inside the corner is as far from what lies beyond the next frame's corner as from that
corner. -/
theorem corner_far_of_le (hstep : 0 < step) (ha : a ≤ width - step) (hb : b ≤ height - step) :
    ((2 - √2) * step) ^ 2 ≤
      (width - (2 - √2) * step - a) ^ 2 + (height - (2 - √2) * step - b) ^ 2 := by
  have hroot : √2 ^ 2 = (2 : ℝ) := Real.sq_sqrt two_pos.le
  obtain ⟨-, hgap⟩ := gap_bounds hstep
  have hdiagonal : ((2 - √2) * step) ^ 2 =
      (step - (2 - √2) * step) ^ 2 + (step - (2 - √2) * step) ^ 2 := by
    linear_combination -step ^ 2 * hroot
  rw [hdiagonal]
  exact add_le_add (pow_le_pow_left₀ (by linarith) (by linarith) 2)
    (pow_le_pow_left₀ (by linarith) (by linarith) 2)

/-- A point that lies so far inside is as far from the outline. -/
theorem OnFrame.far {gap : ℝ} (h : OnFrame width height 0 a b) (hgap : 0 ≤ gap)
    (hwidth : gap ≤ width - gap) (hheight : gap ≤ height - gap) :
    gap ^ 2 ≤ (width - gap - a) ^ 2 + (height - gap - b) ^ 2 := by
  have hfar {x : ℝ} (hx : gap ≤ x ∨ x ≤ -gap) (y : ℝ) : gap ^ 2 ≤ x ^ 2 + y ^ 2 := by
    rcases hx with hx | hx <;> nlinarith [sq_nonneg y]
  rcases h with ⟨ha | ha, -⟩ | ⟨hb | hb, -⟩
  · exact hfar (Or.inl (by linarith)) _
  · exact hfar (Or.inr (by linarith)) _
  · rw [add_comm]
    exact hfar (Or.inl (by linarith)) _
  · rw [add_comm]
    exact hfar (Or.inr (by linarith)) _

/-- In the corner opposite to the diagonal, a point is as far from the outermost frame as from the
corner of the next. -/
theorem corner_far (hstep : 0 < step) (hlast : last ≠ 0)
    (hfits : last * step ≤ min width height / 2) (h : OnNest width height step last a b) :
    ((2 - √2) * step) ^ 2 ≤
      (width - (2 - √2) * step - a) ^ 2 + (height - (2 - √2) * step - b) ^ 2 := by
  have hwidth : min width height ≤ width := min_le_left _ _
  have hheight : min width height ≤ height := min_le_right _ _
  have hone {j : ℕ} (hj : j ≠ 0) : step ≤ j * step :=
    le_mul_of_one_le_left hstep.le (by exact_mod_cast Nat.one_le_iff_ne_zero.mpr hj)
  have hfirst : step ≤ last * step := hone hlast
  rcases h with ⟨j, hj, hframe⟩ | ⟨hab, -, ha⟩
  · by_cases hzero : j = 0
    · rw [hzero, Nat.cast_zero, zero_mul] at hframe
      obtain ⟨hgap, hgap'⟩ := gap_bounds hstep
      exact hframe.far hgap (by linarith) (by linarith)
    · have hinset : j * step ≤ last * step :=
        mul_le_mul_of_nonneg_right (by exact_mod_cast hj) hstep.le
      obtain ⟨ha, hb⟩ := hframe.le_sub (hone hzero) (by linarith) (by linarith)
      exact corner_far_of_le hstep ha hb
  · exact corner_far_of_le hstep (by linarith) (by linarith)

end Toolpath
