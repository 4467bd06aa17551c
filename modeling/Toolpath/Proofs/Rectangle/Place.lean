import Mathlib.Analysis.Real.Sqrt
import Toolpath.Proofs.Path
import Toolpath.Proofs.Rectangle.Frames
import Toolpath.Proofs.Rectangle.Laps

/-!
# Inside a rectangle

The inside of the outline has coordinates of its own: how far a point lies from the two sides that
meet at the start corner. They are turned and mirrored to where the rectangle lies, which keeps
distances and straight lines. In these coordinates a lap is a frame, and the way from one lap to
another runs along the diagonal.

* `Layout.place`, `Layout.Inside` — the coordinates, and the inside
* `Layout.Upright`, `Layout.halfWidth_eq` — what every layout that is made has
* `Layout.exists_ofRectangle` — which rectangles a layout is made of
* `Layout.Upright.length_wayTo_place`, `Layout.between_place` — distances and straight lines
* `Layout.onLine_lap`, `Layout.between_entries` — laps and the ways between them
-/

namespace Toolpath

open Scalar

namespace Layout

section

variable {α : Type} [Scalar α]

/-- The point that lies so far inside from the two sides of the outline that meet at the start
corner. -/
def place (l : Layout α) (a b : α) : Point α :=
  if l.rotation == 0 then ⟨l.base.x + a * l.sense.x, l.base.y + b * l.sense.y⟩
  else Point.rotateAbout ⟨l.base.x + a * l.sense.x, l.base.y + b * l.sense.y⟩ l.pivot l.rotation

theorem corner_fourth (l : Layout α) (inset : α) :
    l.corner inset .fourth = l.place inset inset := rfl

end

end Layout

open RealScalar

/-! ## The inside of the outline -/

namespace Point

theorem rotateAbout_eq_turned (p pivot : Point ℝ) (degrees : ℝ) :
    p.rotateAbout pivot degrees = p.turned pivot false (radians degrees) := by
  simp only [rotateAbout, turned, shift, Offset.turned, Bool.false_eq_true, if_false]
  congr 1
  · exact add_sub_assoc _ _ _
  · exact add_assoc _ _ _

theorem rotateAbout_self (p : Point ℝ) (degrees : ℝ) : p.rotateAbout p degrees = p := by
  simp only [rotateAbout, wayTo, sub_self, zero_mul, add_zero, sub_zero]

theorem turned_wayTo_turned (p q pivot : Point ℝ) (clockwise : Bool) (angle : ℝ) :
    (p.turned pivot clockwise angle).wayTo (q.turned pivot clockwise angle) =
      (p.wayTo q).turned clockwise angle := by
  simp only [turned, shift, wayTo, Offset.turned]
  congr 1 <;> ring

end Point

/-- By how much compensation changes both lengths. -/
noncomputable def Rectangle.growth (r : Rectangle ℝ) (tool : Tool ℝ) : ℝ :=
  r.side.sign * tool.cutterDiameter

theorem Rectangle.growth_of_on {r : Rectangle ℝ} (h : r.side = .on) (tool : Tool ℝ) :
    r.growth tool = 0 := by
  have hsign : (r.side.sign : ℝ) = 0 := by
    rw [h]
    exact real_zero
  rw [growth, hsign, zero_mul]

namespace Layout

/-- Inside the outline. -/
def Inside (l : Layout ℝ) (y : Point ℝ) : Prop :=
  ∃ a b, 0 ≤ a ∧ a ≤ |l.extent.x| ∧ 0 ≤ b ∧ b ≤ |l.extent.y| ∧ y = l.place a b

/-- Half the shorter side: how far the middle lies inside. -/
noncomputable def halfWidth (l : Layout ℝ) : ℝ := Min.min |l.extent.x| |l.extent.y| / 2

/-- The outline extends in the direction that it has along each axis. -/
structure Upright (l : Layout ℝ) : Prop where
  sense_x : |l.sense.x| = 1
  sense_y : |l.sense.y| = 1
  extent_x : l.extent.x = |l.extent.x| * l.sense.x
  extent_y : l.extent.y = |l.extent.y| * l.sense.y

theorem abs_signs (a : Anchor) :
    |(a.signs : ℝ × ℝ).1| = 1 ∧ |(a.signs : ℝ × ℝ).2| = 1 := by
  cases a with
  | center => simp [Anchor.signs]
  | corner c => cases c <;> simp [Anchor.signs]

/-! ### Layouts of programmed rectangles -/

theorem lapCount_signs (cut : RectangleCut) (a : Anchor) (width height stepOver : ℝ) :
    lapCount cut ⟨width * a.signs.1, height * a.signs.2⟩ stepOver =
      lapCount cut ⟨width, height⟩ stepOver := by
  obtain ⟨hx, hy⟩ := abs_signs a
  have hsame {len sign : ℝ} (hsign : |sign| = 1) : Scalar.abs (len * sign) = Scalar.abs len := by
    show |len * sign| = |len|
    rw [abs_mul, hsign, mul_one]
  simp only [lapCount, hsame hx, hsame hy]

theorem compensated_eq_ok {parameter : String} {growth len : ℝ} :
    compensated parameter growth len = .ok (len + growth) ↔ 0 < len + growth := by
  rw [compensated, real_zero, ← not_le]
  split <;> simp [*]

section

variable {r : Rectangle ℝ} {position : Point ℝ} {tool : Tool ℝ} {l : Layout ℝ}

theorem Upright.of_ofRectangle (h : ofRectangle r position tool = .ok l) : l.Upright := by
  obtain ⟨lenX, lenY, h⟩ := ofRectangle_eq_ok_iff.mp h
  obtain ⟨hx, hy⟩ := abs_signs r.anchor
  have hextend {len sign : ℝ} (hlen : 0 < len) (hsign : |sign| = 1) :
      len * sign = |len * sign| * sign := by
    rw [abs_mul, hsign, mul_one, abs_of_pos hlen]
  refine ⟨?_, ?_, ?_, ?_⟩
  · rw [h.sense_eq]
    exact hx
  · rw [h.sense_eq]
    exact hy
  · rw [h.extent_eq, h.sense_eq]
    exact hextend (compensated_eq_ok.mp h.width_ok) hx
  · rw [h.extent_eq, h.sense_eq]
    exact hextend (compensated_eq_ok.mp h.height_ok) hy

/-- The layout of a rectangle is as wide and as high as it is programmed, with compensation. -/
theorem halfWidth_eq (h : ofRectangle r position tool = .ok l) {lenX lenY : ℝ}
    (hlenX : r.lenX = some lenX) (hlenY : r.lenY = some lenY) :
    l.halfWidth = Min.min (lenX + r.growth tool) (lenY + r.growth tool) / 2 := by
  obtain ⟨_, _, h⟩ := ofRectangle_eq_ok_iff.mp h
  obtain rfl := Option.some.inj (hlenX.symm.trans (requirePresent_real.mp h.lenX_ok))
  obtain rfl := Option.some.inj (hlenY.symm.trans (requirePresent_real.mp h.lenY_ok))
  obtain ⟨hsignX, hsignY⟩ := abs_signs r.anchor
  rw [halfWidth, h.extent_eq, abs_mul, abs_mul, hsignX, hsignY, mul_one, mul_one,
    abs_of_pos (compensated_eq_ok.mp h.width_ok), abs_of_pos (compensated_eq_ok.mp h.height_ok)]
  rfl

/-- Without compensation, a rectangle that is placed by a corner starts where the tool is, unless
its first lap lies inside. -/
theorem entry_of_on (h : ofRectangle r position tool = .ok l) {c : Corner}
    (hanchor : r.anchor = .corner c) (hon : r.side = .on) (hinset : l.inset 0 = 0) :
    l.entry 0 = position := by
  obtain ⟨_, _, h⟩ := ofRectangle_eq_ok_iff.mp h
  have hseat := h.seat_ok
  have hgrowth : r.side.sign * tool.cutterDiameter = 0 := Rectangle.growth_of_on hon tool
  simp only [seat, hanchor, hgrowth, zero_div, zero_mul, sub_zero] at hseat
  obtain ⟨hbase, hpivot⟩ := Prod.mk.inj (Except.ok.inj hseat)
  have hcorner : l.unrotated 0 .fourth = position := by
    rw [unrotated, ← hbase, zero_mul, zero_mul, add_zero, add_zero]
  rw [entry, corner, hinset, hcorner, ← hpivot, Point.rotateAbout_self, ite_self]

/-- A rectangle of which compensation leaves something is accepted if its laps can be counted. -/
theorem exists_ofRectangle {lenX lenY : ℝ} {laps : ℕ} (position : Point ℝ)
    (hlenX : r.lenX = some lenX) (hlenY : r.lenY = some lenY) (hr : r.passes.repetitions ≠ 0)
    (hwidth : 0 < lenX + r.growth tool) (hheight : 0 < lenY + r.growth tool)
    (hlaps : lapCount r.cut ⟨lenX + r.growth tool, lenY + r.growth tool⟩ tool.stepOver =
      .ok laps) :
    ∃ l, ofRectangle r position tool = .ok l ∧ l.laps = laps := by
  obtain ⟨place, hplace⟩ : ∃ place, seat r position tool
      ⟨(lenX + r.growth tool) * r.anchor.signs.1, (lenY + r.growth tool) * r.anchor.signs.2⟩ =
        .ok place := by
    unfold seat
    cases r.anchor <;> exact ⟨_, rfl⟩
  rw [← lapCount_signs r.cut r.anchor] at hlaps
  let l : Layout ℝ :=
    { base := place.1
      extent := ⟨(lenX + r.growth tool) * r.anchor.signs.1,
        (lenY + r.growth tool) * r.anchor.signs.2⟩
      sense := ⟨r.anchor.signs.1, r.anchor.signs.2⟩
      visits := r.anchor.visits r.turn
      pivot := place.2
      rotation := r.rotation
      stepOver := tool.stepOver
      laps := laps
      cut := r.cut }
  refine ⟨l, ofRectangle_eq_ok_iff.mpr ⟨lenX, lenY, ?_⟩, rfl⟩
  exact ⟨requirePresent_real.mpr hlenX, requirePresent_real.mpr hlenY, rfl, rfl, hr,
    compensated_eq_ok.mpr hwidth, compensated_eq_ok.mpr hheight, rfl, rfl, hplace, rfl, rfl, hlaps,
    rfl⟩

/-- A pocket without compensation is accepted if its steps can be counted. -/
theorem exists_ofRectangle_pocket {lenX lenY : ℝ} {n : ℕ} (position : Point ℝ)
    (hlenX : r.lenX = some lenX) (hlenY : r.lenY = some lenY) (hr : r.passes.repetitions ≠ 0)
    (hcut : r.cut.isPocket = true) (hon : r.side = .on) (hwidth : 0 < lenX) (hheight : 0 < lenY)
    (hn : passCount (Min.min lenX lenY / 2) tool.stepOver = .ok n) :
    ∃ l, ofRectangle r position tool = .ok l ∧ l.laps = n + 1 ∧
      l.halfWidth = Min.min lenX lenY / 2 := by
  have hgrowth := Rectangle.growth_of_on hon tool
  have hlaps : lapCount r.cut ⟨lenX + r.growth tool, lenY + r.growth tool⟩ tool.stepOver =
      .ok (n + 1) := by
    refine (lapCount_of_isPocket hcut).mpr ⟨n, ?_, rfl⟩
    show passCount (Min.min |lenX + r.growth tool| |lenY + r.growth tool| / 2) tool.stepOver = _
    rwa [hgrowth, add_zero, add_zero, abs_of_pos hwidth, abs_of_pos hheight]
  obtain ⟨l, hl, hcount⟩ := exists_ofRectangle position hlenX hlenY hr
    (by rwa [hgrowth, add_zero]) (by rwa [hgrowth, add_zero]) hlaps
  have hhalf := halfWidth_eq hl hlenX hlenY
  rw [hgrowth, add_zero, add_zero] at hhalf
  exact ⟨l, hl, hcount, hhalf⟩

end

/-! ### Corners and distances -/

variable {l : Layout ℝ}

/-- Along the first axis, what lies so far inside from the far side. -/
theorem Upright.far_x (h : l.Upright) (inset : ℝ) :
    l.base.x + l.extent.x - inset * l.sense.x =
      l.base.x + (|l.extent.x| - inset) * l.sense.x := by
  linear_combination h.extent_x

/-- Along the second axis, what lies so far inside from the far side. -/
theorem Upright.far_y (h : l.Upright) (inset : ℝ) :
    l.base.y + l.extent.y - inset * l.sense.y =
      l.base.y + (|l.extent.y| - inset) * l.sense.y := by
  linear_combination h.extent_y

theorem Upright.corner_first (h : l.Upright) (inset : ℝ) :
    l.corner inset .first = l.place (|l.extent.x| - inset) inset := by
  simp only [corner, unrotated, place, h.far_x]

theorem Upright.corner_second (h : l.Upright) (inset : ℝ) :
    l.corner inset .second = l.place (|l.extent.x| - inset) (|l.extent.y| - inset) := by
  simp only [corner, unrotated, place, h.far_x, h.far_y]

theorem Upright.corner_third (h : l.Upright) (inset : ℝ) :
    l.corner inset .third = l.place inset (|l.extent.y| - inset) := by
  simp only [corner, unrotated, place, h.far_y]

/-- Places are as far from each other as their coordinates. -/
theorem Upright.length_wayTo_place (h : l.Upright) (a b a' b' : ℝ) :
    ((l.place a b).wayTo (l.place a' b')).length = (⟨a' - a, b' - b⟩ : Offset ℝ).length := by
  have hx : l.sense.x ^ 2 = 1 := by rw [← sq_abs, h.sense_x, one_pow]
  have hy : l.sense.y ^ 2 = 1 := by rw [← sq_abs, h.sense_y, one_pow]
  have hstraight : ((⟨l.base.x + a * l.sense.x, l.base.y + b * l.sense.y⟩ : Point ℝ).wayTo
      ⟨l.base.x + a' * l.sense.x, l.base.y + b' * l.sense.y⟩).length =
        (⟨a' - a, b' - b⟩ : Offset ℝ).length := by
    refine congrArg Real.sqrt ?_
    simp only [Point.wayTo]
    linear_combination (a' - a) ^ 2 * hx + (b' - b) ^ 2 * hy
  unfold place
  split
  · exact hstraight
  · rw [Point.rotateAbout_eq_turned, Point.rotateAbout_eq_turned, Point.turned_wayTo_turned,
      Offset.length_turned, hstraight]

/-- Between two places lies what lies between their coordinates. -/
theorem between_place {a b a' b' : ℝ} {x : Point ℝ} :
    (l.place a b).Between (l.place a' b') x ↔
      ∃ t, 0 ≤ t ∧ t ≤ 1 ∧ x = l.place (a + (a' - a) * t) (b + (b' - b) * t) := by
  have hplace (t : ℝ) : (l.place a b).shift (((l.place a b).wayTo (l.place a' b')).scale t t) =
      l.place (a + (a' - a) * t) (b + (b' - b) * t) := by
    unfold place
    split
    · simp only [Point.shift, Point.wayTo, Offset.scale]
      congr 1 <;> ring
    · simp only [Point.rotateAbout, Point.shift, Point.wayTo, Offset.scale]
      congr 1 <;> ring
  simp only [Point.Between, hplace]

/-- The fractions of a way reach the numbers between its ends. -/
theorem exists_fraction_iff {a a' : ℝ} (h : a ≤ a') (P : ℝ → Prop) :
    (∃ t, 0 ≤ t ∧ t ≤ 1 ∧ P (a + (a' - a) * t)) ↔ ∃ c, a ≤ c ∧ c ≤ a' ∧ P c := by
  constructor
  · rintro ⟨t, ht, ht', hP⟩
    exact ⟨_, by nlinarith, by nlinarith, hP⟩
  · rintro ⟨c, hc, hc', hP⟩
    rcases h.eq_or_lt with rfl | hlt
    · obtain rfl : a = c := le_antisymm hc hc'
      refine ⟨0, le_rfl, zero_le_one, ?_⟩
      rwa [mul_zero, add_zero]
    · have hpos : 0 < a' - a := sub_pos.mpr hlt
      refine ⟨(c - a) / (a' - a), div_nonneg (by linarith) hpos.le, ?_, ?_⟩
      · rw [div_le_one hpos]
        linarith
      · rwa [mul_div_cancel₀ _ hpos.ne', add_sub_cancel]

theorem between_place_x {a a' b : ℝ} (h : a ≤ a') {x : Point ℝ} :
    (l.place a b).Between (l.place a' b) x ↔ ∃ c, a ≤ c ∧ c ≤ a' ∧ x = l.place c b := by
  simp only [between_place, sub_self, zero_mul, add_zero]
  exact exists_fraction_iff h fun c => x = l.place c b

theorem between_place_y {a b b' : ℝ} (h : b ≤ b') {x : Point ℝ} :
    (l.place a b).Between (l.place a b') x ↔ ∃ c, b ≤ c ∧ c ≤ b' ∧ x = l.place a c := by
  simp only [between_place, sub_self, zero_mul, add_zero]
  exact exists_fraction_iff h fun c => x = l.place a c

/-! ## Laps and the ways between them -/

/-- The points of a frame are those of its four sides. -/
theorem exists_onFrame_iff {width height inset : ℝ} {x : Point ℝ} :
    (∃ a b, OnFrame width height inset a b ∧ x = l.place a b) ↔
      (∃ c, inset ≤ c ∧ c ≤ width - inset ∧ x = l.place c inset) ∨
        (∃ c, inset ≤ c ∧ c ≤ height - inset ∧ x = l.place (width - inset) c) ∨
        (∃ c, inset ≤ c ∧ c ≤ width - inset ∧ x = l.place c (height - inset)) ∨
        ∃ c, inset ≤ c ∧ c ≤ height - inset ∧ x = l.place inset c := by
  constructor
  · rintro ⟨a, b, ⟨rfl | rfl, hb, hb'⟩ | ⟨rfl | rfl, ha, ha'⟩, rfl⟩
    · exact Or.inr (Or.inr (Or.inr ⟨b, hb, hb', rfl⟩))
    · exact Or.inr (Or.inl ⟨b, hb, hb', rfl⟩)
    · exact Or.inl ⟨a, ha, ha', rfl⟩
    · exact Or.inr (Or.inr (Or.inl ⟨a, ha, ha', rfl⟩))
  · rintro (⟨c, hc, hc', rfl⟩ | ⟨c, hc, hc', rfl⟩ | ⟨c, hc, hc', rfl⟩ | ⟨c, hc, hc', rfl⟩)
    · exact ⟨c, _, Or.inr ⟨Or.inl rfl, hc, hc'⟩, rfl⟩
    · exact ⟨_, c, Or.inl ⟨Or.inr rfl, hc, hc'⟩, rfl⟩
    · exact ⟨c, _, Or.inr ⟨Or.inr rfl, hc, hc'⟩, rfl⟩
    · exact ⟨_, c, Or.inl ⟨Or.inl rfl, hc, hc'⟩, rfl⟩

/-- **A lap is a frame**, whichever way round it is cut. -/
theorem onLine_lap (h : l.Upright) {anchor : Anchor} {t : Turn} (hv : l.visits = anchor.visits t)
    {k : ℕ} (hx : l.inset k ≤ |l.extent.x| - l.inset k) (hy : l.inset k ≤ |l.extent.y| - l.inset k)
    (x : Point ℝ) :
    OnLine (l.entry k) (l.lapCorners k) x ↔
      ∃ a b, OnFrame |l.extent.x| |l.extent.y| (l.inset k) a b ∧ x = l.place a b := by
  rw [exists_onFrame_iff, ← between_place_x hx, ← between_place_y hy, ← between_place_x hx,
    ← between_place_y hy, ← corner_fourth, ← h.corner_first, ← h.corner_second, ← h.corner_third]
  unfold lapCorners entry
  rw [hv, Anchor.visits]
  split
  · simp only [List.map_cons, List.map_nil, OnLine, or_false]
    rw [Point.between_comm (p := l.corner _ .third) (q := l.corner _ .second),
      Point.between_comm (p := l.corner _ .second) (q := l.corner _ .first),
      Point.between_comm (p := l.corner _ .first) (q := l.corner _ .fourth)]
    tauto
  · simp only [List.map_cons, List.map_nil, OnLine, or_false]
    rw [Point.between_comm (p := l.corner _ .second) (q := l.corner _ .third),
      Point.between_comm (p := l.corner _ .third) (q := l.corner _ .fourth)]

/-- **The way from one lap to another** runs along the diagonal. -/
theorem between_entries {j k : ℕ} {low high : ℝ} (hj : low ≤ l.inset j ∧ l.inset j ≤ high)
    (hk : low ≤ l.inset k ∧ l.inset k ≤ high) {x : Point ℝ}
    (h : (l.entry j).Between (l.entry k) x) : ∃ e, low ≤ e ∧ e ≤ high ∧ x = l.place e e := by
  obtain ⟨t, ht, ht', rfl⟩ := between_place.mp h
  exact ⟨l.inset j + (l.inset k - l.inset j) * t, by nlinarith, by nlinarith, rfl⟩

end Layout

end Toolpath
