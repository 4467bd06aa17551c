import Mathlib.Data.List.Rotate
import Toolpath.Proofs.Rectangle.Cover

/-!
# The outline of a rectangle

The programmed rectangle extends from the position, or lies around its center. Compensation grows it
on every side by half its growth, and a lap lies inside that by its inset. The corners of a lap are
those of the rectangle so grown, turned about the pivot, in an order that goes round it the right
way and ends at the start corner, in exact arithmetic.

* `Point.signedArea`, `Point.signedArea_rotateAbout` — the area inside a closed line
* `Rectangle.grownCorner` — the corners of the programmed rectangle, grown on every side
* `Rectangle.GoesRound` — corners that go round it
* `Layout.goesRound_lap` — every lap does
* `Rectangle.outline_iff` — when the outline is the outermost one
-/

namespace Toolpath

open Scalar RealScalar

/-! ## Closed lines -/

/-- Twice the area that two offsets span, above zero if the second lies to the left of the first. -/
def Offset.cross (v w : Offset ℝ) : ℝ := v.x * w.y - w.x * v.y

theorem Offset.cross_turned (v w : Offset ℝ) (clockwise : Bool) (angle : ℝ) :
    (v.turned clockwise angle).cross (w.turned clockwise angle) = v.cross w := by
  have hone := Real.sin_sq_add_cos_sq angle
  cases clockwise with
  | true =>
    simp only [cross, turned, if_true]
    linear_combination (v.x * w.y - w.x * v.y) * hone
  | false =>
    simp only [cross, turned, Bool.false_eq_true, if_false]
    linear_combination (v.x * w.y - w.x * v.y) * hone

namespace Point

/-- The sides of a closed line: from each point to the next, and from the last to the first. -/
def sides (ps : List (Point ℝ)) : List (Point ℝ × Point ℝ) := ps.zip (ps.rotate 1)

/-- The area inside a closed line, above zero if it goes round counter-clockwise. -/
noncomputable def signedArea (ps : List (Point ℝ)) : ℝ :=
  ((sides ps).map fun e => e.1.x * e.2.y - e.2.x * e.1.y).sum / 2

/-- With four corners it is half of what the diagonals span. -/
theorem signedArea_four (a b c d : Point ℝ) :
    signedArea [a, b, c, d] = (a.wayTo c).cross (b.wayTo d) / 2 := by
  simp [signedArea, sides, Offset.cross, wayTo, List.rotate]
  ring

theorem rotateAbout_zero (p pivot : Point ℝ) : p.rotateAbout pivot 0 = p := by
  have hzero : (radians 0 : ℝ) = 0 := zero_mul _
  rw [rotateAbout_eq_turned, hzero, turned, Offset.turned_zero, shift_wayTo]

/-- Turning back undoes turning. -/
theorem rotateAbout_neg (p pivot : Point ℝ) (degrees : ℝ) :
    (p.rotateAbout pivot degrees).rotateAbout pivot (-degrees) = p := by
  have hneg : (radians (-degrees) : ℝ) = -radians degrees := neg_mul _ _
  rw [rotateAbout_eq_turned, rotateAbout_eq_turned, hneg, turned, wayTo_turned,
    Offset.turned_turned, add_neg_cancel, Offset.turned_zero, shift_wayTo]

/-- **Turning four corners keeps the area inside.** -/
theorem signedArea_rotateAbout (a b c d pivot : Point ℝ) (degrees : ℝ) :
    signedArea ([a, b, c, d].map fun p => p.rotateAbout pivot degrees) =
      signedArea [a, b, c, d] := by
  simp only [List.map_cons, List.map_nil, signedArea_four, rotateAbout_eq_turned,
    turned_wayTo_turned, Offset.cross_turned]

/-- Two points are the ends of a side of a rectangle with sides along the axes. -/
def EndsOfSide (width height : ℝ) (p q : Point ℝ) : Prop :=
  p.x = q.x ∧ |q.y - p.y| = height ∨ p.y = q.y ∧ |q.x - p.x| = width

theorem EndsOfSide.symm {width height : ℝ} {p q : Point ℝ} (h : EndsOfSide width height p q) :
    EndsOfSide width height q p := by
  unfold EndsOfSide at *
  rwa [abs_sub_comm p.y, abs_sub_comm p.x, eq_comm (a := q.x), eq_comm (a := q.y)]

end Point

/-! ## The programmed rectangle -/

namespace Rectangle

/-- What a rectangle is turned about: its center if that is what is placed, and the position
otherwise. -/
noncomputable def pivot (r : Rectangle ℝ) (position : Point ℝ) : Point ℝ :=
  match r.anchor with
  | .center => ⟨r.centerX.getD position.x, r.centerY.getD position.y⟩
  | .corner _ => position

/-- The start corner as it is programmed, before compensation and rotation. -/
noncomputable def programmedStart (r : Rectangle ℝ) (position : Point ℝ) (lenX lenY : ℝ) :
    Point ℝ :=
  match r.anchor with
  | .center => ⟨(r.pivot position).x - lenX / 2, (r.pivot position).y - lenY / 2⟩
  | .corner _ => position

/-- A corner of the programmed rectangle, grown by a margin on every side, before rotation. -/
noncomputable def grownCorner (r : Rectangle ℝ) (position : Point ℝ) (lenX lenY margin : ℝ)
    (c : Corner) : Point ℝ :=
  let start := r.programmedStart position lenX lenY
  let nearX := start.x - margin * r.anchor.signs.1
  let nearY := start.y - margin * r.anchor.signs.2
  let farX := start.x + (lenX + margin) * r.anchor.signs.1
  let farY := start.y + (lenY + margin) * r.anchor.signs.2
  match c with
  | .first => ⟨farX, nearY⟩
  | .second => ⟨farX, farY⟩
  | .third => ⟨nearX, farY⟩
  | .fourth => ⟨nearX, nearY⟩

/-- **Corners that go round the programmed rectangle**, grown by a margin on every side and turned
about its pivot. -/
structure GoesRound (r : Rectangle ℝ) (position : Point ℝ) (lenX lenY margin : ℝ)
    (ps : List (Point ℝ)) : Prop where
  width_nonneg : 0 ≤ lenX + 2 * margin
  height_nonneg : 0 ≤ lenY + 2 * margin
  /-- Turned back, they are the corners, each of them once. -/
  perm : (ps.map fun p => p.rotateAbout (r.pivot position) (-r.rotation)).Perm
    ([.first, .second, .third, .fourth].map (r.grownCorner position lenX lenY margin))
  /-- Neighbouring ones share a side, and so do the last and the first. -/
  sides : ∀ e ∈ Point.sides (ps.map fun p => p.rotateAbout (r.pivot position) (-r.rotation)),
    Point.EndsOfSide (lenX + 2 * margin) (lenY + 2 * margin) e.1 e.2
  area : Point.signedArea ps =
    if r.turn.isClockwise then -((lenX + 2 * margin) * (lenY + 2 * margin))
    else (lenX + 2 * margin) * (lenY + 2 * margin)
  /-- They end at the start corner. -/
  last : (ps.map fun p => p.rotateAbout (r.pivot position) (-r.rotation)).getLast? =
    some (r.grownCorner position lenX lenY margin .fourth)

section

variable (r : Rectangle ℝ) (position : Point ℝ) {lenX lenY margin : ℝ}

/-- The sides of the grown rectangle. -/
theorem endsOfSide_grownCorner (hx : 0 ≤ lenX + 2 * margin) (hy : 0 ≤ lenY + 2 * margin) :
    let corner := r.grownCorner position lenX lenY margin
    let EndsOfSide := Point.EndsOfSide (lenX + 2 * margin) (lenY + 2 * margin)
    EndsOfSide (corner .first) (corner .second) ∧ EndsOfSide (corner .second) (corner .third) ∧
      EndsOfSide (corner .third) (corner .fourth) ∧
        EndsOfSide (corner .fourth) (corner .first) := by
  have hlength {len : ℝ} (start sign : ℝ) (hlen : 0 ≤ len + 2 * margin) (hsign : |sign| = 1) :
      |start + (len + margin) * sign - (start - margin * sign)| = len + 2 * margin := by
    have hway : start + (len + margin) * sign - (start - margin * sign) =
        (len + 2 * margin) * sign := by ring
    rw [hway, abs_mul, hsign, mul_one, abs_of_nonneg hlen]
  obtain ⟨hsignX, hsignY⟩ := Layout.abs_signs r.anchor
  refine ⟨Or.inl ⟨rfl, hlength _ _ hy hsignY⟩, Or.inr ⟨rfl, ?_⟩, Or.inl ⟨rfl, ?_⟩,
    Or.inr ⟨rfl, hlength _ _ hx hsignX⟩⟩
  · rw [abs_sub_comm]
    exact hlength _ _ hx hsignX
  · rw [abs_sub_comm]
    exact hlength _ _ hy hsignY

/-- The area of the grown rectangle, with its corners in rising order or the other way round. -/
theorem signedArea_grownCorner (lenX lenY margin : ℝ) :
    let corner := r.grownCorner position lenX lenY margin
    let area := (lenX + 2 * margin) * (lenY + 2 * margin) *
      ((r.anchor.signs : ℝ × ℝ).1 * (r.anchor.signs : ℝ × ℝ).2)
    Point.signedArea [corner .first, corner .second, corner .third, corner .fourth] = area ∧
      Point.signedArea [corner .third, corner .second, corner .first, corner .fourth] = -area := by
  intro corner area
  constructor
  · rw [Point.signedArea_four]
    simp only [Offset.cross, Point.wayTo, corner, grownCorner, area]
    ring
  · rw [Point.signedArea_four]
    simp only [Offset.cross, Point.wayTo, corner, grownCorner, area]
    ring

/-- The corners are visited in falling order to go round clockwise, unless the rectangle extends in
one direction along one axis and in the other along the other. -/
theorem signs_of_descends (a : Anchor) (t : Turn) :
    (a.signs : ℝ × ℝ).1 * (a.signs : ℝ × ℝ).2 =
      if a.descends t = t.isClockwise then 1 else -1 := by
  rcases a with _ | _ | _ | _ | _ <;> cases t <;>
    simp [Anchor.signs, Anchor.descends, Turn.isClockwise]

/-- **The corners of the grown rectangle, in the order in which they are visited, go round it.** -/
theorem goesRound_visits (hx : 0 ≤ lenX + 2 * margin) (hy : 0 ≤ lenY + 2 * margin) :
    r.GoesRound position lenX lenY margin ((r.anchor.visits r.turn).map fun c =>
      (r.grownCorner position lenX lenY margin c).rotateAbout (r.pivot position) r.rotation) := by
  have hback (cs : List Corner) : (cs.map fun c => (r.grownCorner position lenX lenY margin
      c).rotateAbout (r.pivot position) r.rotation).map
        (fun p => p.rotateAbout (r.pivot position) (-r.rotation)) =
      cs.map (r.grownCorner position lenX lenY margin) := by
    rw [List.map_map]
    exact List.map_congr_left fun c _ => Point.rotateAbout_neg _ _ _
  obtain ⟨hone, htwo, hthree, hfour⟩ := r.endsOfSide_grownCorner position hx hy
  refine ⟨hx, hy, ?_, ?_, ?_, ?_⟩
  · rw [hback]
    refine List.Perm.map _ ?_
    unfold Anchor.visits
    split <;> decide
  · rw [hback]
    unfold Anchor.visits
    split
    · simp [Point.sides, List.rotate, hthree.symm, htwo.symm, hone.symm, hfour.symm]
    · simp [Point.sides, List.rotate, hone, htwo, hthree, hfour]
  · obtain ⟨hrising, hfalling⟩ := r.signedArea_grownCorner position lenX lenY margin
    have hsigns := signs_of_descends r.anchor r.turn
    unfold Anchor.visits
    cases hd : r.anchor.descends r.turn with
    | true =>
      refine (Point.signedArea_rotateAbout _ _ _ _ _ _).trans (hfalling.trans ?_)
      rw [hsigns, hd]
      cases r.turn.isClockwise <;> simp
    | false =>
      refine (Point.signedArea_rotateAbout _ _ _ _ _ _).trans (hrising.trans ?_)
      rw [hsigns, hd]
      cases r.turn.isClockwise <;> simp
  · rw [hback]
    unfold Anchor.visits
    split <;> rfl

end

end Rectangle

/-! ## The laps of a layout -/

namespace Layout

variable {r : Rectangle ℝ} {position : Point ℝ} {tool : Tool ℝ} {l : Layout ℝ}

/-- The start corner is one of the grown rectangle, which is turned about its pivot. -/
theorem seat_eq (r : Rectangle ℝ) (position : Point ℝ) (tool : Tool ℝ) (lenX lenY : ℝ) :
    seat r position tool
        ⟨(lenX + r.growth tool) * r.anchor.signs.1, (lenY + r.growth tool) * r.anchor.signs.2⟩ =
      .ok (r.grownCorner position lenX lenY (r.growth tool / 2) .fourth, r.pivot position) := by
  -- the center is given or left to the position; a corner is at the position
  cases ha : r.anchor with
  | center =>
    simp only [seat, requireFinite_real, pure_bind, Rectangle.grownCorner,
      Rectangle.programmedStart, Rectangle.pivot, ha, Anchor.signs, real_one]
    refine congrArg (fun base => Except.ok (base, _)) ?_
    congr 1 <;> ring
  | corner c =>
    simp only [seat, Rectangle.grownCorner, Rectangle.programmedStart, Rectangle.pivot, ha]
    rfl

/-- **Where the layout of a rectangle lies:** the programmed rectangle, grown on every side. -/
theorem place_of_ofRectangle (h : ofRectangle r position tool = .ok l) :
    ∃ lenX lenY, r.lenX = some lenX ∧ r.lenY = some lenY ∧
      0 < lenX + r.growth tool ∧ 0 < lenY + r.growth tool ∧
      l.extent = ⟨(lenX + r.growth tool) * r.anchor.signs.1,
        (lenY + r.growth tool) * r.anchor.signs.2⟩ ∧
      l.sense = ⟨r.anchor.signs.1, r.anchor.signs.2⟩ ∧
      l.pivot = r.pivot position ∧ l.rotation = r.rotation ∧
      l.base = r.grownCorner position lenX lenY (r.growth tool / 2) .fourth := by
  obtain ⟨lenX, lenY, h⟩ := ofRectangle_eq_ok_iff.mp h
  have hseat := h.extent_eq ▸ h.seat_ok
  obtain ⟨hbase, hpivot⟩ :=
    Prod.mk.inj (Except.ok.inj ((seat_eq r position tool lenX lenY).symm.trans hseat))
  exact ⟨lenX, lenY, requirePresent_real.mp h.lenX_ok, requirePresent_real.mp h.lenY_ok,
    compensated_eq_ok.mp h.width_ok, compensated_eq_ok.mp h.height_ok, h.extent_eq, h.sense_eq,
    hpivot.symm, (Except.ok.inj h.rotation_ok).symm, hbase.symm⟩

theorem corner_eq_rotateAbout (l : Layout ℝ) (inset : ℝ) (c : Corner) :
    l.corner inset c = (l.unrotated inset c).rotateAbout l.pivot l.rotation := by
  unfold corner
  split
  · rename_i hzero
    rw [beq_real, real_zero] at hzero
    rw [hzero, Point.rotateAbout_zero]
  · rfl

/-- **A lap goes round the programmed rectangle**, grown by compensation less its inset. -/
theorem goesRound_lap (h : ofRectangle r position tool = .ok l) {lenX lenY : ℝ}
    (hlenX : r.lenX = some lenX) (hlenY : r.lenY = some lenY) {inset : ℝ}
    (hx : 2 * inset ≤ lenX + r.growth tool) (hy : 2 * inset ≤ lenY + r.growth tool) :
    r.GoesRound position lenX lenY (r.growth tool / 2 - inset)
      (l.visits.map (l.corner inset)) := by
  obtain ⟨_, _, hsameX, hsameY, -, -, hextent, hsense, hpivot, hrotation, hbase⟩ :=
    place_of_ofRectangle h
  obtain rfl := Option.some.inj (hlenX.symm.trans hsameX)
  obtain rfl := Option.some.inj (hlenY.symm.trans hsameY)
  have hcorner (c : Corner) : l.unrotated inset c =
      r.grownCorner position lenX lenY (r.growth tool / 2 - inset) c := by
    cases c <;> simp only [unrotated, hextent, hsense, hbase, Rectangle.grownCorner] <;>
      congr 1 <;> ring
  have hvisits := (of_ofRectangle h).2.1
  rw [hvisits, funext (corner_eq_rotateAbout l inset), hpivot, hrotation, funext hcorner]
  exact r.goesRound_visits position (by linarith) (by linarith)

/-- How far the first lap lies inside: not at all, unless it is the last of those that fit. -/
theorem inset_zero_eq (h : ofRectangle r position tool = .ok l) :
    l.inset 0 =
      if r.cut = .pocketInsideOut then (⌊l.halfWidth / tool.stepOver⌋₊ : ℝ) * tool.stepOver
      else 0 := by
  have hstep := stepOver_of_ofRectangle h
  have hcut := cut_of_ofRectangle h
  unfold inset
  cases hc : r.cut with
  | profile => rw [hcut, hc, if_neg (by decide), real_zero]
  | pocketOutsideIn =>
    rw [hcut, hc, if_neg (by decide)]
    exact (congrArg _ Nat.cast_zero).trans (mul_zero _)
  | pocketInsideOut =>
    obtain ⟨hpos, hfits, hnext, -⟩ :=
      of_passCount (passCount_of_ofRectangle h (hc ▸ rfl))
    rw [abs_of_nonneg l.halfWidth_nonneg] at hfits hnext
    have hfloor : ⌊l.halfWidth / l.stepOver⌋₊ = l.laps - 1 := by
      rw [Nat.floor_eq_iff (div_nonneg l.halfWidth_nonneg hpos.le)]
      exact ⟨(le_div_iff₀ hpos).mpr hfits, (div_lt_iff₀ hpos).mpr hnext⟩
    rw [hcut, hc, if_pos rfl, ← hstep, hfloor]
    exact mul_comm _ _

/-- A lap lies inside the outline, but not beyond the middle. -/
theorem inset_bounds (h : ofRectangle r position tool = .ok l) {j : ℕ}
    (hj : j < l.laps) : 0 ≤ l.inset j ∧ l.inset j ≤ l.halfWidth := by
  cases hpocket : r.cut.isPocket with
  | true =>
    have hnested := Nested.of_ofRectangle h hpocket
    obtain ⟨hnonneg, hle⟩ := hnested.inset_mem hj
    exact ⟨hnonneg, hle.trans hnested.fits⟩
  | false =>
    have hprofile : l.cut = .profile := by
      rw [cut_of_ofRectangle h]
      cases hc : r.cut with
      | profile => rfl
      | pocketOutsideIn | pocketInsideOut =>
        rw [hc] at hpocket
        cases hpocket
    have hzero : l.inset j = 0 := by
      rw [inset, hprofile, real_zero]
    rw [hzero]
    exact ⟨le_rfl, l.halfWidth_nonneg⟩

end Layout

/-! ## The outline -/

namespace Rectangle

variable {r : Rectangle ℝ} {position : Point ℝ} {tool : Tool ℝ} {lenX lenY : ℝ}

/-- Corners go round with one margin only. -/
theorem GoesRound.margin_eq {margin margin' : ℝ} {ps : List (Point ℝ)}
    (h : r.GoesRound position lenX lenY margin ps)
    (h' : r.GoesRound position lenX lenY margin' ps) : margin = margin' := by
  have hcorner := Option.some.inj (h.last.symm.trans h'.last)
  have hx := congrArg Point.x hcorner
  have hsign : (r.anchor.signs : ℝ × ℝ).1 ≠ 0 := by
    intro hzero
    have hone := (Layout.abs_signs r.anchor).1
    rw [hzero, abs_zero] at hone
    exact zero_ne_one hone
  simp only [grownCorner] at hx
  exact mul_right_cancel₀ hsign (by linarith)

theorem outline_of_ofRectangle {l : Layout ℝ} (h : Layout.ofRectangle r position tool = .ok l) :
    r.outline position tool = .ok (l.lapCorners 0) := by
  rw [outline, h]
  rfl

theorem exists_of_outline {ps : List (Point ℝ)} (h : r.outline position tool = .ok ps) :
    ∃ l, Layout.ofRectangle r position tool = .ok l ∧ ps = l.lapCorners 0 := by
  unfold outline at h
  cases hl : Layout.ofRectangle r position tool with
  | error cause =>
    rw [hl] at h
    cases h
  | ok l =>
    rw [hl] at h
    exact ⟨l, rfl, (Except.ok.inj h).symm⟩

/-- **Every lap goes round the programmed rectangle**, grown by compensation less its inset. -/
theorem goesRound_lapCorners {l : Layout ℝ} (h : Layout.ofRectangle r position tool = .ok l)
    (hlenX : r.lenX = some lenX) (hlenY : r.lenY = some lenY) {j : ℕ} (hj : j < l.laps) :
    r.GoesRound position lenX lenY (r.growth tool / 2 - l.inset j) (l.lapCorners j) := by
  have hhalf := Layout.halfWidth_eq h hlenX hlenY
  have hinset := (Layout.inset_bounds h hj).2
  refine Layout.goesRound_lap h hlenX hlenY ?_ ?_
  · linarith [min_le_left (lenX + r.growth tool) (lenY + r.growth tool)]
  · linarith [min_le_right (lenX + r.growth tool) (lenY + r.growth tool)]

/-- The first lap goes round with compensation alone if it does not lie inside. -/
theorem goesRound_iff_inset {l : Layout ℝ} (h : Layout.ofRectangle r position tool = .ok l)
    (hlenX : r.lenX = some lenX) (hlenY : r.lenY = some lenY) :
    r.GoesRound position lenX lenY (r.growth tool / 2) (l.lapCorners 0) ↔ l.inset 0 = 0 := by
  have hround := goesRound_lapCorners h hlenX hlenY (Layout.Proper.of_ofRectangle h).laps_pos
  constructor
  · intro hall
    linarith [hall.margin_eq hround]
  · intro hzero
    rwa [hzero, sub_zero] at hround

/-- **What the outline of a rectangle is.** Its corners go round the programmed rectangle with its
compensation, unless the rectangle is a pocket that is cut from inside out and has several laps.
Then they go round the innermost of these. -/
theorem outline_iff {ps : List (Point ℝ)} (h : r.outline position tool = .ok ps) :
    ∃ lenX lenY, r.lenX = some lenX ∧ r.lenY = some lenY ∧
      0 < lenX + r.growth tool ∧ 0 < lenY + r.growth tool ∧
      (r.GoesRound position lenX lenY (r.growth tool / 2) ps ↔
        (r.cut = .pocketInsideOut →
          Min.min (lenX + r.growth tool) (lenY + r.growth tool) / 2 < tool.stepOver)) ∧
      (r.cut = .pocketInsideOut →
        r.GoesRound position lenX lenY
          (r.growth tool / 2 -
            ⌊Min.min (lenX + r.growth tool) (lenY + r.growth tool) / 2 / tool.stepOver⌋₊ *
              tool.stepOver) ps) := by
  obtain ⟨l, hl, rfl⟩ := exists_of_outline h
  obtain ⟨lenX, lenY, hlenX, hlenY, hposX, hposY, -⟩ := Layout.place_of_ofRectangle hl
  have hround := goesRound_lapCorners hl hlenX hlenY (Layout.Proper.of_ofRectangle hl).laps_pos
  have hinset := Layout.inset_zero_eq hl
  refine ⟨lenX, lenY, hlenX, hlenY, hposX, hposY, ?_, fun hcut => ?_⟩
  · rw [goesRound_iff_inset hl hlenX hlenY, hinset]
    by_cases hcut : r.cut = .pocketInsideOut
    · have hpos : 0 < tool.stepOver := by
        rw [← Layout.stepOver_of_ofRectangle hl]
        exact (of_passCount (Layout.passCount_of_ofRectangle hl (hcut ▸ rfl))).1
      rw [if_pos hcut, mul_eq_zero, or_iff_left hpos.ne', Nat.cast_eq_zero, Nat.floor_eq_zero,
        div_lt_one hpos, Layout.halfWidth_eq hl hlenX hlenY]
      exact ⟨fun hlt _ => hlt, fun h => h hcut⟩
    · rw [if_neg hcut]
      exact ⟨fun _ h => absurd h hcut, fun _ => rfl⟩
  · rwa [hinset, if_pos hcut, Layout.halfWidth_eq hl hlenX hlenY] at hround

/-! ### A frame that is turned -/

/-- The outline of a rectangle to the left of the position and below it, cut outside and turned. -/
noncomputable def turnedFrame : Rectangle ℝ where
  lenX := some 2
  lenY := some 1
  side := .outside
  turn := .counterclockwise
  anchor := .corner .second
  passes := ⟨-0.1, 1, false, false⟩
  cut := .profile
  rotation := 30
  plungeAxis := .z
  rampFirst := false
  centerX := none
  centerY := none

theorem turnedFrame_growth : turnedFrame.growth .standard = 0.25 := by
  show (@OfNat.ofNat ℝ 1 (instOfNatScalar 1)) * (0.25 : ℝ) = 0.25
  rw [real_one, one_mul]

theorem turnedFrame_outline :
    ∃ ps, turnedFrame.outline ⟨1, 1⟩ (.standard : Tool ℝ) = .ok ps := by
  have hlenX : turnedFrame.lenX = some 2 := rfl
  have hlenY : turnedFrame.lenY = some 1 := rfl
  have hwidth : 0 < 2 + turnedFrame.growth .standard := by
    rw [turnedFrame_growth]
    norm_num
  have hheight : 0 < 1 + turnedFrame.growth .standard := by
    rw [turnedFrame_growth]
    norm_num
  obtain ⟨l, hl, -⟩ :=
    Layout.exists_ofRectangle ⟨1, 1⟩ hlenX hlenY (by decide) hwidth hheight rfl
  exact ⟨l.lapCorners 0, outline_of_ofRectangle hl⟩

theorem turnedFrame_outline_iff :
    ∃ ps, turnedFrame.outline ⟨1, 1⟩ .standard = .ok ps ∧
      turnedFrame.GoesRound ⟨1, 1⟩ 2 1 0.125 ps := by
  obtain ⟨ps, hps⟩ := turnedFrame_outline
  obtain ⟨lenX, lenY, hlenX, hlenY, -, -, hiff, -⟩ := outline_iff hps
  obtain rfl : 2 = lenX := Option.some.inj hlenX
  obtain rfl : 1 = lenY := Option.some.inj hlenY
  have hround := hiff.mpr fun hcut => by cases hcut
  rw [turnedFrame_growth, show (0.25 : ℝ) / 2 = 0.125 by norm_num] at hround
  exact ⟨ps, hps, hround⟩

/-- The outline of a pocket that is cut from inside out is its innermost lap. -/
theorem shallowPocket_not_outlined :
    ∃ ps, shallowPocket.outline ⟨0, 0⟩ .standard = .ok ps ∧
      ¬shallowPocket.GoesRound ⟨0, 0⟩ 2 1 (shallowPocket.growth .standard / 2) ps := by
  obtain ⟨l, hl⟩ := shallowPocket_layout
  have hl : Layout.ofRectangle shallowPocket ⟨0, 0⟩ .standard = .ok l := hl
  have hcut : shallowPocket.cut = .pocketInsideOut := rfl
  refine ⟨_, outline_of_ofRectangle hl, ?_⟩
  rw [goesRound_iff_inset hl rfl rfl, Layout.inset_zero_eq hl, Layout.halfWidth_eq hl rfl rfl,
    growth_of_on rfl, stepOver_standard, if_pos hcut]
  have htwo : ⌊Min.min ((2 : ℝ) + 0) (1 + 0) / 2 / 0.225⌋₊ = 2 := by
    rw [Nat.floor_eq_iff (by norm_num)]
    norm_num
  rw [htwo]
  norm_num

end Rectangle

end Toolpath
