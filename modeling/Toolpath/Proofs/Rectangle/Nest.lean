import Toolpath.Proofs.Rectangle.Outline
import Toolpath.Proofs.Shift

/-!
# Nested laps

The laps of a rectangular pocket lie one step inside each other and do not cross the middle, in
exact arithmetic. From inside out they are the same laps as from the outside in, in the opposite
order.

* `Layout.Stacked` — how the laps of a pocket lie
* `Layout.ofRectangle_cut` — the order of the laps changes nothing else
* `Rectangle.legs_laps` — a pass goes round all laps, one after the other
* `Rectangle.laps_nested` — the laps of a pocket
-/

namespace Toolpath

open Scalar RealScalar

namespace Layout

/-- **Laps that lie one inside the other.** -/
structure Stacked (l : Layout ℝ) : Prop where
  pos : 1 ≤ l.laps
  nonneg : ∀ j < l.laps, 0 ≤ l.inset j
  le_half : ∀ j < l.laps, l.inset j ≤ l.halfWidth
  /-- Neighbouring laps are one step apart. -/
  apart : ∀ j, j + 1 < l.laps → |l.inset (j + 1) - l.inset j| = l.stepOver
  /-- There is no room for another lap. -/
  deepest : ∃ j < l.laps, (∀ i < l.laps, l.inset i ≤ l.inset j) ∧
    l.halfWidth - l.stepOver < l.inset j
  inside : ∀ j < l.laps, ∀ p ∈ l.lapCorners j, l.Inside p

variable {r : Rectangle ℝ} {position : Point ℝ} {tool : Tool ℝ} {l : Layout ℝ}

/-- The order of the laps changes nothing else about a pocket. -/
theorem ofRectangle_cut {c : RectangleCut} (hc : c.isPocket = r.cut.isPocket)
    (h : ofRectangle r position tool = .ok l) :
    ofRectangle { r with cut := c } position tool = .ok { l with cut := c } := by
  have hcount : lapCount c l.extent tool.stepOver = lapCount r.cut l.extent tool.stepOver := by
    rw [lapCount, lapCount, hc]
  obtain ⟨lenX, lenY, h⟩ := ofRectangle_eq_ok_iff.mp h
  exact ofRectangle_eq_ok_iff.mpr ⟨lenX, lenY, h.lenX_ok, h.lenY_ok, h.rotation_ok, h.plunge_ok,
    h.repetitions_ne, h.width_ok, h.height_ok, h.extent_eq, h.sense_eq, h.seat_ok, h.visits_eq,
    h.stepOver_eq, hcount.trans h.laps_ok, rfl⟩

/-- What lies between the two sides along each axis is inside. -/
theorem Upright.inside_corner (h : l.Upright) {inset : ℝ} (hnonneg : 0 ≤ inset)
    (hhalf : inset ≤ l.halfWidth) (c : Corner) : l.Inside (l.corner inset c) := by
  have hhalf : inset ≤ Min.min |l.extent.x| |l.extent.y| / 2 := hhalf
  have hwidth : Min.min |l.extent.x| |l.extent.y| ≤ |l.extent.x| := min_le_left _ _
  have hheight : Min.min |l.extent.x| |l.extent.y| ≤ |l.extent.y| := min_le_right _ _
  have hx : inset ≤ |l.extent.x| - inset := by linarith
  have hy : inset ≤ |l.extent.y| - inset := by linarith
  cases c with
  | first =>
    exact ⟨_, _, by linarith, by linarith, hnonneg, by linarith, h.corner_first inset⟩
  | second =>
    exact ⟨_, _, by linarith, by linarith, by linarith, by linarith, h.corner_second inset⟩
  | third =>
    exact ⟨_, _, hnonneg, by linarith, by linarith, by linarith, h.corner_third inset⟩
  | fourth =>
    exact ⟨_, _, hnonneg, by linarith, hnonneg, by linarith, l.corner_fourth inset⟩

/-- **The laps of a pocket lie one inside the other.** -/
theorem stacked_of_ofRectangle (h : ofRectangle r position tool = .ok l)
    (hcut : r.cut.isPocket = true) : l.Stacked := by
  have hnested := Nested.of_ofRectangle h hcut
  have hpos := hnested.proper.laps_pos
  obtain ⟨hstep, -, hnext, -⟩ := of_passCount (passCount_of_ofRectangle h hcut)
  rw [abs_of_nonneg l.halfWidth_nonneg] at hnext
  refine
    { pos := hpos
      nonneg := fun j hj => (inset_bounds h hj).1
      le_half := fun j hj => (inset_bounds h hj).2
      apart := ?_
      deepest := ?_
      inside := ?_ }
  · intro j hj
    rw [hnested.inset_eq, hnested.inset_eq]
    split
    · rw [Nat.cast_succ, ← sub_mul, add_sub_cancel_left, one_mul, abs_of_pos hstep]
    · have hbefore : l.laps - 1 - j = l.laps - 1 - (j + 1) + 1 := by omega
      rw [hbefore, Nat.cast_succ, ← sub_mul, sub_add_cancel_left, neg_one_mul, abs_neg,
        abs_of_pos hstep]
  · obtain ⟨j, hj, hinset⟩ := hnested.exists_inset le_rfl
    refine ⟨j, hj, fun i hi => ?_, ?_⟩
    · rw [hinset]
      exact (hnested.inset_mem hi).2
    · rw [hinset]
      linarith
  · intro j hj p hp
    obtain ⟨c, -, rfl⟩ := List.mem_map.mp hp
    obtain ⟨hnonneg, hhalf⟩ := inset_bounds h hj
    exact hnested.upright.inside_corner hnonneg hhalf c

/-- **The laps from inside out are those from the outside in**, in the opposite order. -/
theorem map_lapCorners_reverse (l : Layout ℝ) :
    (List.range l.laps).map { l with cut := .pocketInsideOut }.lapCorners =
      ((List.range l.laps).map { l with cut := .pocketOutsideIn }.lapCorners).reverse := by
  refine List.ext_getElem (by simp) fun j _ _ => ?_
  rw [List.getElem_reverse]
  simp only [List.getElem_map, List.getElem_range, List.length_map, List.length_range]
  rfl

/-- There are few enough laps for words of 32 bits, in which the laps behind a lap are counted
without going below zero. -/
theorem toNat_word (h : ofRectangle r position tool = .ok l) (hcut : r.cut.isPocket = true) {j : ℕ}
    (hj : j < l.laps) :
    (UInt32.ofNat l.laps - 1 - UInt32.ofNat j).toNat = l.laps - 1 - j := by
  obtain ⟨-, -, -, hfew⟩ := of_passCount (passCount_of_ofRectangle h hcut)
  have hlimit : maxPasses + 1 < UInt32.size := by decide
  have hword {i : ℕ} (hi : i ≤ l.laps) : (UInt32.ofNat i).toNat = i :=
    UInt32.toNat_ofNat_of_lt' (by omega)
  have hone : (1 : UInt32) ≤ UInt32.ofNat l.laps := by
    rw [UInt32.le_iff_toNat_le, hword le_rfl]
    exact Nat.one_le_of_lt hj
  have hlaps : (UInt32.ofNat l.laps - 1).toNat = l.laps - 1 := by
    rw [UInt32.toNat_sub_of_le _ _ hone, hword le_rfl]
    rfl
  rw [UInt32.toNat_sub_of_le, hlaps, hword hj.le]
  rw [UInt32.le_iff_toNat_le, hlaps, hword hj.le]
  exact Nat.le_sub_one_of_lt hj

end Layout

/-! ## The laps of a pass -/

/-- The lap whose inset a leg needs. -/
def Leg.number : Leg → ℕ
  | .ramp => 0
  | .lap k => k
  | .join k => k

namespace Rectangle

variable {r : Rectangle ℝ} {tool : Tool ℝ} {l : Layout ℝ}

/-- **A pass goes round all laps, one after the other.** The first may be gone round twice, down
along the ramp and then at one depth. -/
theorem legs_laps (h : l.Proper) (isFirst : Bool) :
    (r.legs l isFirst).filterMap Leg.lap? =
      (if r.ramps isFirst ∧ r.passes.repetitions = 1 then [0] else []) ++ List.range l.laps := by
  have hinner : l.innerLegs.filterMap Leg.lap? = (List.range (l.laps - 1)).map (· + 1) := by
    rw [Layout.innerLegs, List.filterMap_flatMap, List.map_eq_flatMap]
    rfl
  have hall : List.range l.laps = 0 :: (List.range (l.laps - 1)).map (· + 1) := by
    rw [← List.range_succ_eq_map, Nat.sub_add_cancel h.laps_pos]
  unfold legs
  rw [List.filterMap_append, hinner, hall]
  by_cases hramps : r.ramps isFirst = true
  · by_cases hone : r.passes.repetitions = 1
    · rw [if_pos hramps, if_pos hone, if_pos ⟨hramps, hone⟩]
      rfl
    · rw [if_pos hramps, if_neg hone, if_neg fun h => hone h.2]
      rfl
  · rw [if_neg hramps, if_neg fun h => hramps h.1]
    rfl

/-- No leg of a pass needs an inset beyond the last lap. -/
theorem number_lt_laps (h : l.Proper) (isFirst : Bool) {leg : Leg} (hleg : leg ∈ r.legs l isFirst) :
    leg.number < l.laps := by
  cases leg with
  | ramp => exact h.laps_pos
  | lap k => exact (mem_laps_iff (r := r) h isFirst k).mp ⟨_, hleg, rfl⟩
  | join k => exact lt_of_join_mem isFirst hleg

/-- **The laps of a pocket.** They lie one inside the other, one step apart and as many as there is
room for, and every lap goes round the right way. Cut from inside out or from the outside in, the
rectangle is laid out alike, and the laps come in opposite orders. A pass goes round all of them,
one after the other, and needs no inset beyond the last, so the laps behind one can be counted in
words. -/
theorem laps_nested {m : Machine ℝ} (hl : Layout.ofRectangle r m.position.point tool = .ok l)
    (hcut : r.cut.isPocket = true) :
    let outsideIn : Layout ℝ := { l with cut := .pocketOutsideIn }
    let insideOut : Layout ℝ := { l with cut := .pocketInsideOut }
    (l.Stacked ∧ l.stepOver = tool.stepOver) ∧
      (∃ lenX lenY, r.lenX = some lenX ∧ r.lenY = some lenY ∧
        l.halfWidth = Min.min (lenX + r.growth tool) (lenY + r.growth tool) / 2 ∧
        ∀ j < l.laps, r.GoesRound m.position.point lenX lenY (r.growth tool / 2 - l.inset j)
          (l.lapCorners j)) ∧
      (Layout.ofRectangle { r with cut := .pocketOutsideIn } m.position.point tool =
          .ok outsideIn ∧
        Layout.ofRectangle { r with cut := .pocketInsideOut } m.position.point tool =
          .ok insideOut ∧
        (∀ j < l.laps, insideOut.inset j = outsideIn.inset (l.laps - 1 - j)) ∧
        (List.range l.laps).map insideOut.lapCorners =
          ((List.range l.laps).map outsideIn.lapCorners).reverse) ∧
      ((r.execute tool m).machine.since m).filter Move.cuts =
        (List.range r.passes.repetitions.toNat).flatMap
          (fun k => (r.passMoves tool l m k).filter Move.cuts) ∧
      ∀ k < r.passes.repetitions.toNat,
        r.passMoves tool l m k =
            r.sinkMoves tool l m k ++ (r.legs l (k == 0)).flatMap (r.cutMoves tool l m k) ∧
          (∀ leg j, leg.lap? = some j → ∀ p : Position ℝ,
            (p.stops (r.cutMoves tool l m k leg)).map Position.point = l.lapCorners j) ∧
          (r.legs l (k == 0)).filterMap Leg.lap? =
            (if r.ramps (k == 0) ∧ r.passes.repetitions = 1 then [0] else []) ++
              List.range l.laps ∧
          ∀ leg ∈ r.legs l (k == 0), leg.number < l.laps ∧
            (UInt32.ofNat l.laps - 1 - UInt32.ofNat leg.number).toNat =
              l.laps - 1 - leg.number := by
  intro outsideIn insideOut
  have hproper := Layout.Proper.of_ofRectangle hl
  obtain ⟨lenX, lenY, hlenX, hlenY, -⟩ := Layout.place_of_ofRectangle hl
  have hcuts {c : RectangleCut} (hc : c.isPocket = true) :
      Layout.ofRectangle { r with cut := c } m.position.point tool = .ok { l with cut := c } :=
    Layout.ofRectangle_cut (hc.trans hcut.symm) hl
  refine ⟨⟨Layout.stacked_of_ofRectangle hl hcut, Layout.stepOver_of_ofRectangle hl⟩,
    ⟨lenX, lenY, hlenX, hlenY, Layout.halfWidth_eq hl hlenX hlenY,
      fun j hj => goesRound_lapCorners hl hlenX hlenY hj⟩,
    ⟨hcuts rfl, hcuts rfl, fun j _ => rfl, l.map_lapCorners_reverse⟩,
    filter_cuts_execute hl, fun k _ => ?_⟩
  refine ⟨passMoves_eq m k, fun leg j hj p => (legMoves_round hproper _ _ hj p).1,
    legs_laps hproper (k == 0), fun leg hleg => ?_⟩
  have hlt := number_lt_laps hproper (k == 0) hleg
  exact ⟨hlt, Layout.toNat_word hl hcut hlt⟩

/-- A pocket of two by one has three laps of the standard tool, and its first pass goes round each
of them once. -/
theorem rampedPocket_laps_nested :
    ∃ l, Layout.ofRectangle rampedPocket onSurface.position.point .standard = .ok l ∧
      rampedPocket.cut.isPocket = true ∧ l.Stacked ∧ l.halfWidth = 0.5 ∧ l.laps = 3 ∧
      (rampedPocket.legs l true).filterMap Leg.lap? = [0, 1, 2] := by
  obtain ⟨l, hl⟩ := rampedPocket_layout
  obtain ⟨⟨hstacked, hstep⟩, ⟨lenX, lenY, hlenX, hlenY, hhalf, -⟩, -, -, hpasses⟩ :=
    laps_nested hl rfl
  have hgrowth : rampedPocket.growth .standard = 0 := growth_of_on rfl .standard
  have hhalf : l.halfWidth = 0.5 := by
    rw [hhalf, ← Option.some.inj hlenX, ← Option.some.inj hlenY, hgrowth]
    norm_num
  have hlaps : l.laps = 3 := by
    obtain ⟨-, hfits, hnext, -⟩ := of_passCount (Layout.passCount_of_ofRectangle hl rfl)
    rw [hhalf, hstep, stepOver_standard, abs_of_pos (by norm_num)] at hfits hnext
    have hmore : (1 : ℝ) < (l.laps - 1 : ℕ) := by linarith
    have hless : ((l.laps - 1 : ℕ) : ℝ) < 3 := by linarith
    have hmore : 1 < l.laps - 1 := by exact_mod_cast hmore
    have hless : l.laps - 1 < 3 := by exact_mod_cast hless
    omega
  obtain ⟨-, -, hall, -⟩ := hpasses 0 (by decide)
  have htwice : ¬rampedPocket.passes.repetitions = 1 := by decide
  rw [hlaps, if_neg fun h => htwice h.2] at hall
  exact ⟨l, hl, rfl, hstacked, hhalf, hlaps, hall⟩

end Rectangle

end Toolpath
