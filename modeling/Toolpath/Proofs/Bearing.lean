import Toolpath.Bearing
import Toolpath.Proofs.RealScalar

/-!
# Folded bearings

A bearing is counted from the other axis and brought back by one turn at most, in exact arithmetic.
What it is folded to differs from that by whole turns, so it names the same direction. It lies
within a turn of zero on either side for the bearings between -270 and 1170 degrees, and for no
others: one from further out stays out.

* `Bearing.fold_eq` — a folded bearing, by the turns that folding adds
* `Bearing.fold_within_turn_iff` — when it lies within a turn of zero
-/

namespace Toolpath.Bearing

open Scalar RealScalar

/-- The whole turns that folding adds to a bearing that is counted from the other axis. -/
noncomputable def foldTurns (bearing : ℝ) : ℤ :=
  if bearing ≤ 90 then 0 else if bearing < 810 then 1 else 2

/-- **A folded bearing** differs by whole turns from the bearing counted the other way from the
other axis. -/
theorem fold_eq (bearing : ℝ) : fold bearing = 90 - bearing + 360 * foldTurns bearing := by
  have hfold : fold bearing =
      if (360 : ℝ) ≤ 450 - bearing then 450 - bearing - 360
      else if 450 - bearing ≤ (-360 : ℝ) then 450 - bearing + 360 else 450 - bearing := rfl
  have hlow : (360 : ℝ) ≤ 450 - bearing ↔ bearing ≤ 90 := by
    constructor <;> intro h <;> linarith
  have hhigh : 450 - bearing ≤ (-360 : ℝ) ↔ ¬bearing < 810 := by
    rw [not_lt]
    constructor <;> intro h <;> linarith
  rw [hfold, foldTurns]
  simp only [hlow, hhigh]
  split_ifs <;> push_cast <;> ring

/-- **When a folded bearing lies within a turn of zero.** It always names the direction that its
bearing does, but only one turn is ever taken back. -/
theorem fold_within_turn_iff (bearing : ℝ) :
    fold bearing = 90 - bearing + 360 * foldTurns bearing ∧
      (-360 < fold bearing ∧ fold bearing < 360 ↔ -270 < bearing ∧ bearing < 1170) := by
  refine ⟨fold_eq bearing, ?_⟩
  rw [fold_eq, foldTurns]
  -- without a turn the lower bound of the bearing counts, with two of them the upper one
  split_ifs with hlow hhigh
  · push_cast
    constructor
    · rintro ⟨-, h⟩
      constructor <;> linarith
    · rintro ⟨h, -⟩
      constructor <;> linarith
  · push_cast
    constructor <;> intro _ <;> constructor <;> linarith
  · push_cast
    constructor
    · rintro ⟨h, -⟩
      constructor <;> linarith
    · rintro ⟨-, h⟩
      constructor <;> linarith

/-- East, two turns to the left of its own bearing: folding takes none of them back. -/
theorem fold_two_turns_left :
    fold (-630 : ℝ) = 720 ∧ ¬(-360 < fold (-630 : ℝ) ∧ fold (-630 : ℝ) < 360) := by
  have hfold : fold (-630 : ℝ) = 720 := by
    rw [fold_eq, foldTurns, if_pos (by norm_num)]
    norm_num
  refine ⟨hfold, ?_⟩
  rw [hfold]
  norm_num

end Toolpath.Bearing
