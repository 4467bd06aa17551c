import Mathlib.Analysis.Real.Sqrt
import Toolpath.Settings
import Toolpath.Proofs.Rectangle.Corners
import Toolpath.Proofs.Rectangle.Place

/-!
# What a rectangular pocket clears

A pass over a pocket follows its laps, which are nested frames, and the ways between them, which run
along a diagonal. So it clears the whole inside, in exact arithmetic, exactly if the cutter reaches
across the corners between two laps, and from the last lap to the middle.

* `Layout.Follows` — what the legs of a pass follow
* `Rectangle.passesOver_passMoves` — a pass that begins at the start corner follows its legs
* `Rectangle.onNest_of_follows`, `Rectangle.follows_of_onFrame` — these are the nested frames
* `Rectangle.clears_inside_iff` — when a pass clears the whole inside
-/

namespace Toolpath

open Scalar RealScalar

/-! ## Straight cuts -/

/-- Straight cuts in the plane follow the line through the points that they come to. -/
theorem passesOver_straight {ds : List (Move ℝ)} (h : ∀ d ∈ ds, d.Straight ∧ d.cuts = true)
    (p : Position ℝ) (x : Point ℝ) :
    PassesOver Move.cuts p ds x ↔ OnLine p.point ((p.stops ds).map Position.point) x := by
  induction ds generalizing p with
  | nil => exact Iff.rfl
  | cons d ds ih =>
    obtain ⟨hkind, hcuts⟩ := h d List.mem_cons_self
    have hd : d.Traces p x ↔ p.point.Between (p.after d).point x := by
      have hkind : d.kind = .linear := hkind
      rw [Move.Traces, hkind]
    rw [passesOver_cons, hd, ih (fun e he => h e (List.mem_cons_of_mem _ he))]
    simp [hcuts, Position.stops, OnLine]

/-- Legs pass over what each of them passes over. -/
theorem EachLeg.passesOver_iff {moves : Leg → List (Move ℝ)} {which : Move ℝ → Bool} {x : Point ℝ}
    {Q : Leg → Prop} {legs : List Leg} {p : Position ℝ}
    (h : EachLeg moves (fun p leg => PassesOver which p (moves leg) x ↔ Q leg) p legs) :
    PassesOver which p (legs.flatMap moves) x ↔ ∃ leg ∈ legs, Q leg := by
  induction legs generalizing p with
  | nil => simp
  | cons leg legs ih =>
    obtain ⟨hleg, hlegs⟩ := h
    rw [List.flatMap_cons, passesOver_append, hleg, ih hlegs]
    simp

namespace Layout

variable (l : Layout ℝ)

/-- What a leg follows, if it begins where it should. -/
def Follows (x : Point ℝ) : Leg → Prop
  | .ramp => OnLine (l.entry 0) (l.lapCorners 0) x
  | .lap j => OnLine (l.entry j) (l.lapCorners j) x
  | .join j => (l.entry (j - 1)).Between (l.entry j) x

end Layout

namespace Rectangle

variable {r : Rectangle ℝ} {tool : Tool ℝ} {l : Layout ℝ}

/-! ## What a pass follows -/

theorem straight_legMoves (feed z : ℝ) (leg : Leg) :
    ∀ d ∈ r.legMoves l feed z leg, d.Straight ∧ d.cuts = true := by
  intro d hd
  cases leg with
  | ramp =>
    obtain ⟨pf, -, rfl⟩ := List.mem_map.mp hd
    exact ⟨rfl, rfl⟩
  | lap j =>
    obtain ⟨q, -, rfl⟩ := List.mem_map.mp hd
    exact ⟨rfl, rfl⟩
  | join j =>
    rw [List.mem_singleton.mp hd]
    exact ⟨rfl, rfl⟩

theorem passesOver_legMoves (h : l.Proper) (feed z : ℝ) {leg : Leg} {p : Position ℝ}
    (hp : p.point = l.legEntry leg) (x : Point ℝ) :
    PassesOver Move.cuts p (r.legMoves l feed z leg) x ↔ l.Follows x leg := by
  rw [passesOver_straight (straight_legMoves feed z leg), hp]
  cases leg with
  | ramp => rw [(legMoves_round h feed z (j := 0) rfl p).1, Layout.Follows, Layout.legEntry]
  | lap j => rw [(legMoves_round h feed z (j := j) rfl p).1, Layout.Follows, Layout.legEntry]
  | join j =>
    show OnLine (l.entry (j - 1)) [l.entry j] x ↔ _
    simp [OnLine, Layout.Follows]

/-- **A pass that begins at the start corner follows its legs.** -/
theorem passesOver_passMoves (h : l.Proper) {m : Machine ℝ} {k : ℕ}
    (hp : (r.entering tool l m k).2.position.point = l.entry 0) (x : Point ℝ) :
    PassesOver Move.cuts (r.entering tool l m k).2.position (r.passMoves tool l m k) x ↔
      ∃ leg ∈ r.legs l (k == 0), l.Follows x leg := by
  have hstart : (r.legStart tool l m k).point = l.entry 0 := (legStart_point m k).trans hp
  have hsink (d : Move ℝ) (hd : d ∈ r.sinkMoves tool l m k) : d.cuts = false := by
    unfold sinkMoves descent at hd
    split at hd
    · rw [List.mem_singleton.mp hd]
      rfl
    · cases hd
  have hbegin : EachLeg (r.cutMoves tool l m k) (fun p leg => p.point = l.legEntry leg)
      (r.legStart tool l m k) (r.legs l (k == 0)) := legs_begin id h _ _ _ hstart
  have hlegs : EachLeg (r.cutMoves tool l m k)
      (fun p leg => PassesOver Move.cuts p (r.cutMoves tool l m k leg) x ↔ l.Follows x leg)
      (r.legStart tool l m k) (r.legs l (k == 0)) :=
    hbegin.mono fun p leg _ hp => passesOver_legMoves h _ _ hp x
  rw [passMoves_eq, passesOver_append]
  exact (or_iff_right (not_passesOver hsink)).trans hlegs.passesOver_iff

end Rectangle

/-! ## The laps as nested frames -/

namespace Layout

/-- The laps of a pocket: they lie one step inside each other, and fit into the outline. -/
structure Nested (l : Layout ℝ) : Prop where
  proper : l.Proper
  upright : l.Upright
  isPocket : l.cut.isPocket = true
  anchored : ∃ anchor t, l.visits = Anchor.visits anchor t
  step_pos : 0 < l.stepOver
  fits : ((l.laps - 1 : ℕ) : ℝ) * l.stepOver ≤ l.halfWidth

theorem halfWidth_nonneg (l : Layout ℝ) : 0 ≤ l.halfWidth :=
  div_nonneg (le_min (abs_nonneg _) (abs_nonneg _)) two_pos.le

/-- A pocket has as many laps as there is room for steps, and the one along the outline. -/
theorem passCount_of_ofRectangle {r : Rectangle ℝ} {position : Point ℝ} {tool : Tool ℝ}
    {l : Layout ℝ} (hl : ofRectangle r position tool = .ok l) (hcut : r.cut.isPocket = true) :
    passCount l.halfWidth l.stepOver = .ok (l.laps - 1) := by
  obtain ⟨n, hn, hlaps⟩ := (lapCount_of_isPocket hcut).mp (of_ofRectangle hl).2.2
  rw [← hlaps, Nat.add_sub_cancel, stepOver_of_ofRectangle hl]
  exact hn

theorem Nested.of_ofRectangle {r : Rectangle ℝ} {position : Point ℝ} {tool : Tool ℝ} {l : Layout ℝ}
    (hl : ofRectangle r position tool = .ok l) (hcut : r.cut.isPocket = true) : l.Nested := by
  obtain ⟨hpos, hfits, -, -⟩ := of_passCount (passCount_of_ofRectangle hl hcut)
  rw [abs_of_nonneg l.halfWidth_nonneg] at hfits
  exact ⟨.of_ofRectangle hl, .of_ofRectangle hl, cut_of_ofRectangle hl ▸ hcut,
    ⟨_, _, (Layout.of_ofRectangle hl).2.1⟩, hpos, hfits⟩

namespace Nested

variable {l : Layout ℝ} (h : l.Nested)

include h

/-- The laps lie at all numbers of steps, in one order or the other. -/
theorem inset_eq (j : ℕ) :
    l.inset j =
      ((if l.cut = .pocketOutsideIn then j else l.laps - 1 - j : ℕ) : ℝ) * l.stepOver := by
  have hcut := h.isPocket
  unfold inset
  cases hc : l.cut with
  | profile =>
    rw [hc] at hcut
    cases hcut
  | pocketOutsideIn => exact mul_comm _ _
  | pocketInsideOut => exact mul_comm _ _

theorem inset_range {j : ℕ} (hj : j < l.laps) :
    ∃ i ≤ l.laps - 1, l.inset j = i * l.stepOver := by
  refine ⟨_, ?_, h.inset_eq j⟩
  split <;> omega

theorem exists_inset {i : ℕ} (hi : i ≤ l.laps - 1) : ∃ j < l.laps, l.inset j = i * l.stepOver := by
  have hpos := h.proper.laps_pos
  by_cases hin : l.cut = .pocketOutsideIn
  · refine ⟨i, by omega, ?_⟩
    rw [h.inset_eq, if_pos hin]
  · refine ⟨l.laps - 1 - i, by omega, ?_⟩
    rw [h.inset_eq, if_neg hin, Nat.sub_sub_self hi]

/-- No lap lies further inside than the last. -/
theorem inset_mem {j : ℕ} (hj : j < l.laps) :
    0 ≤ l.inset j ∧ l.inset j ≤ ((l.laps - 1 : ℕ) : ℝ) * l.stepOver := by
  obtain ⟨i, hi, hinset⟩ := h.inset_range hj
  rw [hinset]
  exact ⟨mul_nonneg i.cast_nonneg h.step_pos.le,
    mul_le_mul_of_nonneg_right (by exact_mod_cast hi) h.step_pos.le⟩

/-- Where there is a second lap, the corners between it and the first one lie inside. -/
theorem gap_fits (hone : l.laps ≠ 1) :
    0 ≤ (2 - √2) * l.stepOver ∧ (2 - √2) * l.stepOver ≤ |l.extent.x| ∧
      (2 - √2) * l.stepOver ≤ |l.extent.y| := by
  have hpos := h.proper.laps_pos
  have hstep := h.step_pos
  have hinner : (1 : ℝ) ≤ (l.laps - 1 : ℕ) := by
    exact_mod_cast (by omega : 1 ≤ l.laps - 1)
  obtain ⟨hgap, hgap'⟩ := gap_bounds hstep
  have hfits : ((l.laps - 1 : ℕ) : ℝ) * l.stepOver ≤ Min.min |l.extent.x| |l.extent.y| / 2 := h.fits
  have hwidth : Min.min |l.extent.x| |l.extent.y| ≤ |l.extent.x| := min_le_left _ _
  have hheight : Min.min |l.extent.x| |l.extent.y| ≤ |l.extent.y| := min_le_right _ _
  have hone : l.stepOver ≤ ((l.laps - 1 : ℕ) : ℝ) * l.stepOver :=
    le_mul_of_one_le_left hstep.le hinner
  exact ⟨hgap, by linarith, by linarith⟩

/-- **A lap is a frame.** -/
theorem onLine_lap_iff {j : ℕ} (hj : j < l.laps) (x : Point ℝ) :
    OnLine (l.entry j) (l.lapCorners j) x ↔
      ∃ a b, OnFrame |l.extent.x| |l.extent.y| (l.inset j) a b ∧ x = l.place a b := by
  obtain ⟨_, _, hvisits⟩ := h.anchored
  have hdeep : l.inset j ≤ Min.min |l.extent.x| |l.extent.y| / 2 := (h.inset_mem hj).2.trans h.fits
  have hwidth : Min.min |l.extent.x| |l.extent.y| ≤ |l.extent.x| := min_le_left _ _
  have hheight : Min.min |l.extent.x| |l.extent.y| ≤ |l.extent.y| := min_le_right _ _
  exact onLine_lap h.upright hvisits (by linarith) (by linarith) x

end Nested

end Layout

namespace Rectangle

variable {r : Rectangle ℝ} {tool : Tool ℝ} {l : Layout ℝ}

/-- A way to a lap leads to one of the laps. -/
theorem lt_of_join_mem (isFirst : Bool) {j : ℕ} (hj : .join j ∈ r.legs l isFirst) : j < l.laps := by
  unfold legs at hj
  rcases List.mem_append.mp hj with hj | hj
  · split at hj
    · split at hj <;> simp at hj
    · simp at hj
  · simp only [Layout.innerLegs, List.mem_flatMap, List.mem_range, List.mem_cons, Leg.join.injEq,
      reduceCtorEq, List.not_mem_nil, or_false] at hj
    omega

/-- The frames of a pocket are laps of every pass. -/
theorem follows_of_onFrame (h : l.Nested) (isFirst : Bool) {i : ℕ} (hi : i ≤ l.laps - 1) {a b : ℝ}
    (hframe : OnFrame |l.extent.x| |l.extent.y| (i * l.stepOver) a b) :
    ∃ leg ∈ r.legs l isFirst, l.Follows (l.place a b) leg := by
  obtain ⟨j, hj, hinset⟩ := h.exists_inset hi
  obtain ⟨leg, hmem, hlap⟩ := (mem_laps_iff (r := r) h.proper isFirst j).mpr hj
  have hround : OnLine (l.entry j) (l.lapCorners j) (l.place a b) := by
    rw [h.onLine_lap_iff hj, hinset]
    exact ⟨a, b, hframe, rfl⟩
  refine ⟨leg, hmem, ?_⟩
  cases leg with
  | ramp =>
    obtain rfl : 0 = j := Option.some.inj hlap
    exact hround
  | lap k =>
    obtain rfl : k = j := Option.some.inj hlap
    exact hround
  | join k => cases hlap

/-- A pass of a pocket stays on the frames and on the diagonal. -/
theorem onNest_of_follows (h : l.Nested) (isFirst : Bool) {leg : Leg}
    (hleg : leg ∈ r.legs l isFirst) {x : Point ℝ} (hx : l.Follows x leg) :
    ∃ a b, OnNest |l.extent.x| |l.extent.y| l.stepOver (l.laps - 1) a b ∧ x = l.place a b := by
  have hround {j : ℕ} (hj : j < l.laps) (hx : OnLine (l.entry j) (l.lapCorners j) x) :
      ∃ a b, OnNest |l.extent.x| |l.extent.y| l.stepOver (l.laps - 1) a b ∧ x = l.place a b := by
    obtain ⟨i, hi, hinset⟩ := h.inset_range hj
    rw [h.onLine_lap_iff hj, hinset] at hx
    obtain ⟨a, b, hframe, hplace⟩ := hx
    exact ⟨a, b, Or.inl ⟨i, hi, hframe⟩, hplace⟩
  cases leg with
  | ramp => exact hround h.proper.laps_pos hx
  | lap j => exact hround ((mem_laps_iff (r := r) h.proper isFirst j).mp ⟨_, hleg, rfl⟩) hx
  | join j =>
    have hj := lt_of_join_mem isFirst hleg
    obtain ⟨e, he, he', hplace⟩ := Layout.between_entries (h.inset_mem (j := j - 1) (by omega))
      (h.inset_mem hj) hx
    exact ⟨e, e, Or.inr ⟨rfl, he, he'⟩, hplace⟩

/-! ## What a pass clears -/

/-- The whole inside is cleared exactly if the radius reaches across the corners between two laps
and from the last lap to the middle. -/
theorem pass_clears_iff (h : l.Nested) {m : Machine ℝ} {k : ℕ}
    (hp : (r.entering tool l m k).2.position.point = l.entry 0) {radius : ℝ} (hr : 0 ≤ radius) :
    (∀ y, l.Inside y →
        Clears Move.cuts radius (r.entering tool l m k).2.position (r.passMoves tool l m k) y) ↔
      (l.laps = 1 ∨ (2 - √2) * l.stepOver ≤ radius) ∧
        l.halfWidth - ((l.laps - 1 : ℕ) : ℝ) * l.stepOver ≤ radius := by
  have hpos := h.proper.laps_pos
  have hdist (a b a' b' : ℝ) : ((l.place a b).wayTo (l.place a' b')).length ≤ radius ↔
      (a' - a) ^ 2 + (b' - b) ^ 2 ≤ radius ^ 2 := by
    rw [h.upright.length_wayTo_place, Offset.length_le_iff hr]
  constructor
  · intro hall
    -- what is near a point of the inside is on the frames or on the diagonal
    have hnear {a b : ℝ} (ha : 0 ≤ a) (ha' : a ≤ |l.extent.x|) (hb : 0 ≤ b)
        (hb' : b ≤ |l.extent.y|) :
        ∃ a' b', OnNest |l.extent.x| |l.extent.y| l.stepOver (l.laps - 1) a' b' ∧
          (a - a') ^ 2 + (b - b') ^ 2 ≤ radius ^ 2 := by
      obtain ⟨x, hx, hlen⟩ := hall (l.place a b) ⟨a, b, ha, ha', hb, hb', rfl⟩
      obtain ⟨leg, hleg, hfollows⟩ := (passesOver_passMoves h.proper hp x).mp hx
      obtain ⟨a', b', hnest, rfl⟩ := onNest_of_follows h _ hleg hfollows
      exact ⟨a', b', hnest, (hdist a' b' a b).mp hlen⟩
    constructor
    · by_cases hone : l.laps = 1
      · exact Or.inl hone
      · -- the corner opposite to the start corner is joined by no diagonal
        obtain ⟨hgap, hwidth, hheight⟩ := h.gap_fits hone
        obtain ⟨a', b', hnest, hlen⟩ := hnear (a := |l.extent.x| - (2 - √2) * l.stepOver)
          (b := |l.extent.y| - (2 - √2) * l.stepOver) (by linarith) (by linarith) (by linarith)
          (by linarith)
        have hfar := corner_far h.step_pos (by omega) h.fits hnest
        exact Or.inr ((le_abs_self _).trans (abs_le_of_sq_le_sq (hfar.trans hlen) hr))
    · obtain ⟨a', b', hnest, hlen⟩ := hnear (a := |l.extent.x| / 2) (b := |l.extent.y| / 2)
        (by positivity) (by linarith [abs_nonneg l.extent.x]) (by positivity)
        (by linarith [abs_nonneg l.extent.y])
      rcases middle_far h.step_pos hnest with hfar | hfar
      · exact hfar.trans (abs_le_of_sq_le_sq (by nlinarith) hr)
      · exact hfar.trans (abs_le_of_sq_le_sq (by nlinarith) hr)
  · rintro ⟨hcorner, hmiddle⟩ y ⟨a, b, ha, ha', hb, hb', rfl⟩
    obtain ⟨j, hj, a', b', hframe, hnear⟩ := nearFrames_of_inside h.step_pos ha ha' hb hb' h.fits
      (hcorner.imp_left fun hone => by omega) hmiddle
    obtain ⟨leg, hleg, hfollows⟩ := follows_of_onFrame (r := r) h (k == 0) hj hframe
    exact ⟨l.place a' b', (passesOver_passMoves h.proper hp _).mpr ⟨leg, hleg, hfollows⟩,
      (hdist a' b' a b).mpr hnear⟩

/-! ## Passes that begin exactly at the start corner -/

/-- The last lap ends over the start corner only if it is the first one too, or the steps are too
short to be told apart. -/
theorem entry_of_near (h : l.Nested) (hstep : tolerance < l.stepOver)
    (hnear : (l.entry (l.laps - 1)).Near (l.entry 0)) : l.entry (l.laps - 1) = l.entry 0 := by
  obtain ⟨hx, hy⟩ := hnear
  have hx : |(l.entry (l.laps - 1)).x - (l.entry 0).x| ≤ tolerance := hx
  have hy : |(l.entry (l.laps - 1)).y - (l.entry 0).y| ≤ tolerance := hy
  have hsquare : (√2 * tolerance) ^ 2 = tolerance ^ 2 + tolerance ^ 2 := by
    rw [mul_pow, Real.sq_sqrt two_pos.le, two_mul]
  have hnonneg : 0 ≤ √2 * tolerance := mul_nonneg (Real.sqrt_nonneg 2) tolerance_pos.le
  have hnear : ((l.entry 0).wayTo (l.entry (l.laps - 1))).length ≤ √2 * tolerance := by
    rw [Offset.length_le_iff hnonneg, hsquare]
    exact add_le_add (sq_le_sq.mpr (hx.trans (le_abs_self _)))
      (sq_le_sq.mpr (hy.trans (le_abs_self _)))
  -- the two corners lie on the diagonal, all steps apart
  have hdiagonal : (l.inset (l.laps - 1) - l.inset 0) ^ 2 ≤ tolerance ^ 2 := by
    have hlength := h.upright.length_wayTo_place (l.inset 0) (l.inset 0) (l.inset (l.laps - 1))
      (l.inset (l.laps - 1))
    have hle := hlength.symm.le.trans hnear
    rw [Offset.length_le_iff hnonneg, hsquare] at hle
    linarith
  by_contra hne
  have hinner : 1 ≤ l.laps - 1 := by
    by_contra hzero
    exact hne (congrArg l.entry (by omega))
  have hsteps : l.stepOver ≤ |l.inset (l.laps - 1) - l.inset 0| := by
    have hone : (1 : ℝ) ≤ ((l.laps - 1 : ℕ) : ℝ) := by exact_mod_cast hinner
    have hall : l.stepOver ≤ ((l.laps - 1 : ℕ) : ℝ) * l.stepOver :=
      le_mul_of_one_le_left h.step_pos.le hone
    rw [h.inset_eq, h.inset_eq, le_abs]
    split
    · left
      rwa [Nat.cast_zero, zero_mul, sub_zero]
    · right
      rwa [Nat.sub_self, Nat.cast_zero, zero_mul, zero_sub, neg_neg, Nat.sub_zero]
  exact absurd (hsteps.trans (abs_le_of_sq_le_sq hdiagonal tolerance_pos.le)) (not_le.mpr hstep)

/-- Every pass begins exactly at the start corner, if the command does not begin beside it. -/
theorem entering_point (h : l.Nested) (hstep : tolerance < l.stepOver) {m : Machine ℝ}
    (hstart : m.position.Over (l.entry 0) → m.position.point = l.entry 0) (k : ℕ) :
    (r.entering tool l m k).2.position.point = l.entry 0 := by
  cases k with
  | zero =>
    show (m.approach tool (l.entry 0) (r.surface m.position.z)).position.point = l.entry 0
    rw [Machine.approach_eq]
    split
    · exact hstart ‹_›
    · exact (Machine.lifts_lowered _ _).point_eq
  | succ k =>
    have hends : (r.leaving tool l m k).2.position.point = l.entry (l.laps - 1) :=
      r.pass_ends h.proper _ _ _
    rw [entering_succ]
    unfold goBack
    split
    · rename_i hover
      rw [Position.Over, hends] at hover
      exact hends.trans (entry_of_near h hstep hover)
    · rfl

/-- **What a rectangular pocket clears.** Every cut belongs to a pass. One that begins exactly at
the start corner clears the whole inside of the outline if and only if the radius of the cutter
reaches across the corners between two laps, and from the last lap to the middle. All passes begin
there if the step counts and the command does not begin beside the corner. -/
theorem clears_inside_iff {m : Machine ℝ} (hl : Layout.ofRectangle r m.position.point tool = .ok l)
    (htool : tool.fault? = none) (hcut : r.cut.isPocket = true) :
    (r.execute tool m).rejection = none ∧
      ((r.execute tool m).machine.since m).filter Move.cuts =
        (List.range r.passes.repetitions.toNat).flatMap
          (fun k => (r.passMoves tool l m k).filter Move.cuts) ∧
      (∀ k < r.passes.repetitions.toNat,
        (r.entering tool l m k).2.position.point = l.entry 0 →
          ((∀ y, l.Inside y → Clears Move.cuts (tool.cutterDiameter / 2)
              (r.entering tool l m k).2.position (r.passMoves tool l m k) y) ↔
            (l.laps = 1 ∨ (2 - √2) * tool.stepOver ≤ tool.cutterDiameter / 2) ∧
              l.halfWidth - ((l.laps - 1 : ℕ) : ℝ) * tool.stepOver ≤ tool.cutterDiameter / 2)) ∧
      (tolerance < tool.stepOver →
        (m.position.Over (l.entry 0) → m.position.point = l.entry 0) →
          ∀ k, (r.entering tool l m k).2.position.point = l.entry 0) := by
  have h := Layout.Nested.of_ofRectangle hl hcut
  rw [← Layout.stepOver_of_ofRectangle hl]
  refine ⟨?_, filter_cuts_execute hl, ?_, ?_⟩
  · rw [execute, hl]
  · intro k _ hp
    exact pass_clears_iff h hp (by linarith [(Tool.of_fault? htool).1])
  · intro hfar hstart k
    exact entering_point h hfar hstart k

/-! ### A square with one lap and nothing inside, and one with several -/

/-- A square pocket from outside in. -/
noncomputable def squarePocket (len : ℝ) : Rectangle ℝ :=
  { shallowPocket with lenX := some len, lenY := some len, cut := .pocketOutsideIn }

/-- It has one lap more than there is room for steps. -/
theorem squarePocket_layout {len step : ℝ} {tool : Tool ℝ} {n : ℕ} (hlen : 0 < len)
    (hstep : tool.stepOver = step) (hpos : 0 < step) (hfits : n * step ≤ len / 2)
    (hnext : len / 2 < (n + 1) * step) (hfew : n ≤ maxPasses) :
    ∃ l, Layout.ofRectangle (squarePocket len) onSurface.position.point tool = .ok l ∧
      onSurface.position.point = l.entry 0 ∧ l.laps = n + 1 ∧ l.halfWidth = len / 2 := by
  have habs : |len / 2| = len / 2 := abs_of_pos (half_pos hlen)
  have hcount : passCount (Min.min len len / 2) tool.stepOver = .ok n := by
    rw [min_self, hstep]
    exact passCount_of_fits hpos (by rwa [habs]) (by rwa [habs]) hfew
  obtain ⟨l, hl, hlaps, hhalf⟩ := Layout.exists_ofRectangle_pocket (r := squarePocket len)
    onSurface.position.point rfl rfl (show (1 : UInt32) ≠ 0 by decide) rfl rfl hlen hlen hcount
  rw [min_self] at hhalf
  have hinset : l.inset 0 = 0 := by
    rw [Layout.inset, Layout.cut_of_ofRectangle hl]
    exact (congrArg _ Nat.cast_zero).trans (mul_zero _)
  exact ⟨l, hl, (Layout.entry_of_on hl rfl rfl hinset).symm, hlaps, hhalf⟩

/-- A square pocket whose middle lies further inside than the cutter of the standard tool reaches,
and no further than one step. -/
noncomputable def smallSquare : Rectangle ℝ := squarePocket 0.4

theorem smallSquare_layout :
    ∃ l, Layout.ofRectangle smallSquare onSurface.position.point .standard = .ok l ∧
      onSurface.position.point = l.entry 0 ∧ l.laps = 1 ∧ l.halfWidth = 0.4 / 2 :=
  squarePocket_layout (by norm_num) stepOver_standard (by norm_num) (by norm_num) (by norm_num)
    (Nat.zero_le _)

/-- A square pocket with room for several laps. -/
noncomputable def wideSquare : Rectangle ℝ := squarePocket 1

theorem wideSquare_layout :
    ∃ l, Layout.ofRectangle wideSquare onSurface.position.point .standard = .ok l ∧
      onSurface.position.point = l.entry 0 ∧ l.laps = 3 ∧ l.halfWidth = 1 / 2 :=
  squarePocket_layout one_pos stepOver_standard (by norm_num) (by norm_num) (by norm_num)
    (by decide)

theorem stepOver_overlapping_fifty : (Tool.overlapping 50).stepOver = 0.125 := by
  simp only [Tool.stepOver, Tool.overlapping, Tool.standard]
  norm_num

/-- With shorter steps it takes more laps. -/
theorem wideSquare_layout_overlapping :
    ∃ l, Layout.ofRectangle wideSquare onSurface.position.point (.overlapping 50) = .ok l ∧
      onSurface.position.point = l.entry 0 ∧ l.laps = 5 ∧ l.halfWidth = 1 / 2 :=
  squarePocket_layout one_pos stepOver_overlapping_fifty (by norm_num) (by norm_num) (by norm_num)
    (by decide)

theorem tolerance_lt_stepOver_standard : tolerance < (Tool.standard : Tool ℝ).stepOver := by
  rw [stepOver_standard]
  show (1e-6 : ℝ) < 0.225
  norm_num

/-- The wide square is cleared with short steps only. With those of the standard tool the corners
between two laps stay, although the last lap reaches the middle. -/
theorem squares_clears_inside_iff :
    (∃ l, Layout.ofRectangle smallSquare onSurface.position.point .standard = .ok l ∧
      (Tool.standard : Tool ℝ).fault? = none ∧ smallSquare.cut.isPocket = true ∧
      ((∀ y, l.Inside y → Clears Move.cuts ((Tool.standard : Tool ℝ).cutterDiameter / 2)
          (smallSquare.entering .standard l onSurface 0).2.position
          (smallSquare.passMoves .standard l onSurface 0) y) ↔
        (l.laps = 1 ∨ (2 - √2) * (Tool.standard : Tool ℝ).stepOver ≤
            (Tool.standard : Tool ℝ).cutterDiameter / 2) ∧
          l.halfWidth - ((l.laps - 1 : ℕ) : ℝ) * (Tool.standard : Tool ℝ).stepOver ≤
            (Tool.standard : Tool ℝ).cutterDiameter / 2)) ∧
    (∃ l, Layout.ofRectangle wideSquare onSurface.position.point .standard = .ok l ∧
      l.laps = 3 ∧ l.halfWidth - 2 * (Tool.standard : Tool ℝ).stepOver ≤
        (Tool.standard : Tool ℝ).cutterDiameter / 2 ∧
      ¬∀ y, l.Inside y → Clears Move.cuts ((Tool.standard : Tool ℝ).cutterDiameter / 2)
        (wideSquare.entering .standard l onSurface 0).2.position
        (wideSquare.passMoves .standard l onSurface 0) y) ∧
    ∃ l, Layout.ofRectangle wideSquare onSurface.position.point (.overlapping 50) = .ok l ∧
      l.laps = 5 ∧
      ∀ y, l.Inside y → Clears Move.cuts ((Tool.overlapping 50).cutterDiameter / 2)
        (wideSquare.entering (.overlapping 50) l onSurface 0).2.position
        (wideSquare.passMoves (.overlapping 50) l onSurface 0) y := by
  have hfault : (Tool.overlapping 50).fault? = none := Tool.overlapping_fault? (by norm_num)
  -- across a corner, steps of 0.225 are too long for a radius of 0.125, and steps as long are not
  have hroot : (1.4 : ℝ) < √2 ∧ √2 < 1.44 := by
    constructor
    · exact Real.lt_sqrt_of_sq_lt (by norm_num)
    · exact (Real.sqrt_lt' (by norm_num)).mpr (by norm_num)
  refine ⟨?_, ?_, ?_⟩
  · obtain ⟨l, hl, hentry, -, -⟩ := smallSquare_layout
    obtain ⟨-, -, hiff, hexact⟩ := clears_inside_iff hl Tool.standard_fault? rfl
    exact ⟨l, hl, Tool.standard_fault?, rfl,
      hiff 0 (by decide) (hexact tolerance_lt_stepOver_standard (fun _ => hentry) 0)⟩
  · obtain ⟨l, hl, hentry, hlaps, hhalf⟩ := wideSquare_layout
    obtain ⟨-, -, hiff, hexact⟩ := clears_inside_iff hl Tool.standard_fault? rfl
    have hmiddle : l.halfWidth - 2 * (Tool.standard : Tool ℝ).stepOver ≤
        (Tool.standard : Tool ℝ).cutterDiameter / 2 := by
      rw [hhalf, stepOver_standard, Tool.standard_radius]
      norm_num
    refine ⟨l, hl, hlaps, hmiddle, fun hall => ?_⟩
    obtain ⟨hcorner, -⟩ := (hiff 0 (show 0 < 1 by decide)
      (hexact tolerance_lt_stepOver_standard (fun _ => hentry) 0)).mp hall
    rw [hlaps, stepOver_standard, Tool.standard_radius] at hcorner
    exact absurd (hcorner.resolve_left (by decide)) (by linarith)
  · obtain ⟨l, hl, hentry, hlaps, hhalf⟩ := wideSquare_layout_overlapping
    obtain ⟨-, -, hiff, hexact⟩ := clears_inside_iff hl hfault rfl
    have hfar : tolerance < (Tool.overlapping 50).stepOver := by
      rw [stepOver_overlapping_fifty]
      show (1e-6 : ℝ) < 0.125
      norm_num
    refine ⟨l, hl, hlaps, (hiff 0 (show 0 < 1 by decide)
      (hexact hfar (fun _ => hentry) 0)).mpr ⟨Or.inr ?_, ?_⟩⟩
    · rw [stepOver_overlapping_fifty, Tool.overlapping_radius]
      linarith
    · rw [hhalf, hlaps, stepOver_overlapping_fifty, Tool.overlapping_radius]
      norm_num

/-- The middle of this pocket stays uncut. -/
theorem smallSquare_not_cleared :
    ∃ l, Layout.ofRectangle smallSquare onSurface.position.point .standard = .ok l ∧
      (smallSquare.execute .standard onSurface).rejection = none ∧
      ¬∀ y, l.Inside y → Clears Move.cuts ((Tool.standard : Tool ℝ).cutterDiameter / 2)
        (smallSquare.entering .standard l onSurface 0).2.position
        (smallSquare.passMoves .standard l onSurface 0) y := by
  obtain ⟨l, hl, hentry, hlaps, hhalf⟩ := smallSquare_layout
  have h : l.Nested := .of_ofRectangle hl rfl
  have hfar : tolerance < l.stepOver := by
    rw [Layout.stepOver_of_ofRectangle hl]
    exact tolerance_lt_stepOver_standard
  refine ⟨l, hl, by rw [execute, hl], ?_⟩
  rw [pass_clears_iff h (entering_point h hfar (fun _ => hentry) 0)
    (by rw [Tool.standard_radius]; norm_num), hlaps, hhalf, Tool.standard_radius]
  rintro ⟨-, hmiddle⟩
  norm_num at hmiddle

end Rectangle

end Toolpath
