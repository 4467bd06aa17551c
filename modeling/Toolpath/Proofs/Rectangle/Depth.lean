import Mathlib.Data.Real.Basic
import Toolpath.Proofs.Rectangle.Corners

/-!
# The depth of a rectangle

How deep each pass of a rectangle cuts, in exact arithmetic. A pass goes down by the plunge, along
its ramp or before its first leg, and everything behind that is level. One that does not go down is
at its depth because the tool has come back to it, from the approach and from the pass before: both
go down again after they have risen.

* `Rectangle.depthAfter` — the depth that a number of passes come to
* `Rectangle.DeepAs` — how deep a leg is cut
* `Rectangle.entering_z_of_flat` — where the tool is before a pass that does not go down
* `Rectangle.passes_at_depth` — the depth of every leg of every pass
-/

namespace Toolpath

open Scalar RealScalar

namespace Rectangle

variable {r : Rectangle ℝ} {tool : Tool ℝ} {l : Layout ℝ}

/-! ## Counting depths -/

/-- The depth that a rectangle comes to by a number of passes. It counts from zero only if it goes
down at all. -/
noncomputable def depthAfter (r : Rectangle ℝ) (start : ℝ) (k : ℕ) : ℝ :=
  (if r.passes.plunge ≠ 0 ∧ r.passes.fromZero = true then 0 else start) + k * r.passes.plunge

theorem depthAfter_zero (start : ℝ) : r.depthAfter start 0 = r.surface start := by
  unfold depthAfter surface
  rw [Nat.cast_zero, zero_mul, add_zero]
  exact (if_congr (Bool.and_eq_true_iff.trans (and_congr_left' bne_zero_real)) real_zero rfl).symm

theorem depthAfter_succ (start : ℝ) (k : ℕ) :
    r.depthAfter start (k + 1) = r.depthAfter start k + r.passes.plunge := by
  unfold depthAfter
  rw [Nat.cast_succ]
  ring

theorem depthAfter_of_flat (h : r.passes.plunge = 0) (start : ℝ) (k : ℕ) :
    r.depthAfter start k = start := by
  simp [depthAfter, h]

theorem deeper_real (z : ℝ) : r.deeper z = z + r.passes.plunge := by
  unfold deeper
  by_cases hp : r.passes.plunge = 0
  · rw [if_neg fun hne => bne_zero_real.mp hne hp, hp, add_zero]
  · rw [if_pos (bne_zero_real.mpr hp)]

theorem entering_fst (m : Machine ℝ) (k : ℕ) :
    (r.entering tool l m k).1 = r.depthAfter m.position.z k := by
  induction k with
  | zero => exact (depthAfter_zero _).symm
  | succ k ih =>
    have hpass : (r.leaving tool l m k).1 = r.deeper (r.entering tool l m k).1 := r.pass_fst l _ _ _
    rw [entering_succ, hpass, deeper_real, ih, depthAfter_succ]

/-! ## Passes that do not go down -/

/-- **Where the tool is before a pass that does not go down:** at the height from which the command
started. It has come back there from the safe height. -/
theorem entering_z_of_flat (h : l.Proper) (hp : r.passes.plunge = 0) (m : Machine ℝ) (k : ℕ) :
    (r.entering tool l m k).2.position.z = m.position.z := by
  have hdepth (k : ℕ) : (r.entering tool l m k).1 = m.position.z := by
    rw [entering_fst, depthAfter_of_flat hp]
  induction k with
  | zero =>
    have hsurface : r.surface m.position.z = m.position.z := hdepth 0
    show (m.approach tool (l.entry 0) (r.surface m.position.z)).position.z = _
    rw [hsurface]
    exact eq_of_alike (m.approach_there_z tool _)
  | succ k ih =>
    have hpass : Alike (r.leaving tool l m k).2.position.z (r.passEnd (k == 0) m.position.z) := by
      rw [← hdepth k]
      exact r.pass_z h _ fun _ => Or.inl (ih.trans (hdepth k).symm)
    have hend : (r.leaving tool l m k).1 = m.position.z := hdepth (k + 1)
    rw [passEnd, if_neg fun hne => bne_zero_real.mp hne hp] at hpass
    rw [entering_succ, hend]
    exact eq_of_alike (goBack_next_z tool hpass)

/-! ## Legs -/

/-- How deep a leg of a pass from `z` to `z'` is cut: the ramp by a quarter of the way more at each
corner, any other leg all at `z'`. -/
def DeepAs (l : Layout ℝ) (moves : Leg → List (Move ℝ)) (z z' : ℝ) (p : Position ℝ) : Leg → Prop
  | .ramp =>
    p.stops (moves .ramp) =
      List.zipWith (fun c f => ⟨c.x, c.y, z + (z' - z) * f⟩) (l.lapCorners 0) [1/4, 1/2, 3/4, 1]
  | leg => Along (fun q d => q.z = z' ∧ (q.after d).z = z') p (moves leg)

/-- A leg without depth words is cut where it begins. -/
theorem legMoves_level (feed z : ℝ) {leg : Leg} (hleg : leg ≠ .ramp) :
    ∀ d ∈ r.legMoves l feed z leg, d.z = none := by
  cases leg with
  | ramp => exact absurd rfl hleg
  | lap k =>
    intro d hd
    obtain ⟨q, -, rfl⟩ := List.mem_map.mp hd
    rfl
  | join k =>
    intro d hd
    rw [List.mem_singleton.mp hd]
    rfl

theorem level_legs (feed z z' : ℝ) {legs : List Leg} (hlegs : .ramp ∉ legs) {p : Position ℝ}
    (hp : p.z = z') :
    EachLeg (r.legMoves l feed z) (DeepAs l (r.legMoves l feed z) z z') p legs ∧
      (p.afterAll (legs.flatMap (r.legMoves l feed z))).z = z' := by
  refine EachLeg.of_invariant (I := fun p => p.z = z') ?_ hp
  intro p leg hmem hz
  have hne : leg ≠ .ramp := fun h => hlegs (h ▸ hmem)
  have hkeeps : Along (fun _ d => d.Keeps z') p (r.legMoves l feed z leg) :=
    along_of_forall (fun d hd => Or.inl (legMoves_level feed z hne d hd)) p
  obtain ⟨halong, hend⟩ := hkeeps.at_depth hz
  cases leg with
  | ramp => exact absurd rfl hne
  | lap k => exact ⟨halong, hend⟩
  | join k => exact ⟨halong, hend⟩

theorem ramp_not_mem_innerLegs : .ramp ∉ l.innerLegs := by
  simp [Layout.innerLegs]

theorem rampFractions_real : (rampFractions : List ℝ) = [1/4, 1/2, 3/4, 1] := by
  have hquarter : (Scalar.ofScientific 25 true 2 : ℝ) = 1 / 4 := by
    show (0.25 : ℝ) = 1 / 4
    norm_num
  have hhalf : (Scalar.ofScientific 5 true 1 : ℝ) = 1 / 2 := by
    show (0.5 : ℝ) = 1 / 2
    norm_num
  have hmost : (Scalar.ofScientific 75 true 2 : ℝ) = 3 / 4 := by
    show (0.75 : ℝ) = 3 / 4
    norm_num
  show [Scalar.ofScientific 25 true 2, Scalar.ofScientific 5 true 1,
    Scalar.ofScientific 75 true 2, (@OfNat.ofNat ℝ 1 (instOfNatScalar 1))] = _
  rw [hquarter, hhalf, hmost, real_one]

/-- The ramp goes down from corner to corner, and by the whole plunge at the last. -/
theorem ramp_deepAs (h : l.Proper) (feed z : ℝ) (p : Position ℝ) :
    DeepAs l (r.legMoves l feed z) z (z + r.passes.plunge) p .ramp ∧
      (p.afterAll (r.legMoves l feed z .ramp)).z = z + r.passes.plunge := by
  obtain ⟨a, b, c, hv⟩ := h.visits_eq
  rw [DeepAs, legMoves, Layout.lapCorners, hv, rampFractions_real, add_sub_cancel_left]
  refine ⟨rfl, ?_⟩
  show z + r.passes.plunge * 1 = z + r.passes.plunge
  rw [mul_one]

/-- Where the tool is when the first leg of a pass begins that has no ramp. -/
theorem legStart_z (h : l.Proper) (m : Machine ℝ) {k : ℕ} (hr : ¬r.ramps (k == 0) = true) :
    (r.legStart tool l m k).z = r.depthAfter m.position.z (k + 1) := by
  have hfst : (r.entering tool l m k).1 = r.depthAfter m.position.z k := entering_fst m k
  rw [Bool.not_eq_true] at hr
  rw [depthAfter_succ]
  unfold legStart sinkMoves descent
  by_cases hp : r.passes.plunge = 0
  · rw [if_neg fun hne => bne_zero_real.mp (Bool.and_eq_true_iff.mp hne).1 hp,
      Position.afterAll_nil, entering_z_of_flat h hp, hp, depthAfter_of_flat hp, add_zero]
  · rw [hr, bne_zero_real.mpr hp, Bool.not_false, Bool.and_self, if_pos rfl, hfst]
    rfl

/-- **The legs of a pass are cut at their depths**, and the pass ends at its own. -/
theorem legs_deepAs (h : l.Proper) (m : Machine ℝ) (k : ℕ) :
    EachLeg (r.cutMoves tool l m k)
        (DeepAs l (r.cutMoves tool l m k) (r.depthAfter m.position.z k)
          (r.depthAfter m.position.z (k + 1)))
        (r.legStart tool l m k) (r.legs l (k == 0)) ∧
      ((r.legStart tool l m k).afterAll
        ((r.legs l (k == 0)).flatMap (r.cutMoves tool l m k))).z =
          r.depthAfter m.position.z (k + 1) := by
  have hlevel {legs : List Leg} (hlegs : .ramp ∉ legs) {p : Position ℝ} :=
    level_legs (r := r) (l := l) m.feeds.xyPerMinute (r.depthAfter m.position.z k)
      (r.depthAfter m.position.z (k + 1)) hlegs (p := p)
  have hinner : .ramp ∉ l.innerLegs := ramp_not_mem_innerLegs
  unfold cutMoves
  rw [entering_fst]
  unfold legs
  by_cases hr : r.ramps (k == 0) = true
  · -- behind the ramp there may be a lap at its depth, and then there are the laps inside
    obtain ⟨hramp, hend⟩ := ramp_deepAs (r := r) h m.feeds.xyPerMinute
      (r.depthAfter m.position.z k) (r.legStart tool l m k)
    rw [← depthAfter_succ] at hramp hend
    have hrest (legs : List Leg) (hlegs : .ramp ∉ legs) :
        EachLeg (r.legMoves l m.feeds.xyPerMinute (r.depthAfter m.position.z k))
            (DeepAs l (r.legMoves l m.feeds.xyPerMinute (r.depthAfter m.position.z k))
              (r.depthAfter m.position.z k) (r.depthAfter m.position.z (k + 1)))
            (r.legStart tool l m k) (.ramp :: legs) ∧
          ((r.legStart tool l m k).afterAll
            ((.ramp :: legs).flatMap
              (r.legMoves l m.feeds.xyPerMinute (r.depthAfter m.position.z k)))).z =
            r.depthAfter m.position.z (k + 1) := by
      obtain ⟨hlegs, hlast⟩ := hlevel hlegs hend
      rw [List.flatMap_cons, Position.afterAll_append]
      exact ⟨⟨hramp, hlegs⟩, hlast⟩
    rw [if_pos hr]
    split
    · exact hrest (.lap 0 :: l.innerLegs) (by simp [hinner])
    · exact hrest l.innerLegs hinner
  · rw [if_neg hr]
    exact hlevel (by simp [hinner]) (legStart_z h m hr)

/-! ## The depth law -/

/-- All laps are cut level in the last pass. -/
theorem laps_mem_legs (hr : r.passes.repetitions ≠ 0) {j : ℕ} (hj : j < l.laps) :
    .lap j ∈ r.legs l (r.passes.repetitions.toNat - 1 == 0) := by
  have hinner (hpos : 0 < j) : .lap j ∈ l.innerLegs := by
    refine List.mem_flatMap.mpr ⟨j - 1, List.mem_range.mpr (by omega), ?_⟩
    rw [Nat.sub_add_cancel hpos]
    simp
  rcases Nat.eq_zero_or_pos j with rfl | hpos
  · unfold legs
    split
    · -- a ramp in the last pass is a ramp in the only one
      rename_i hramps
      obtain ⟨n, hn⟩ := Passes.exists_succ hr
      have hfirst : (r.passes.repetitions.toNat - 1 == 0) = true := by
        rw [ramps] at hramps
        simp only [Bool.and_eq_true] at hramps
        exact hramps.2.2
      have hone : r.passes.repetitions = 1 := by
        apply UInt32.toNat_inj.mp
        have hzero := beq_iff_eq.mp hfirst
        show _ = 1
        omega
      simp [hone]
    · simp
  · exact List.mem_append_right _ (hinner hpos)

/-- **The depth of a rectangle.** Every cut belongs to a pass, and the moves of a pass are its way
down and its legs. A level lap and the way to one are cut all at the depth of their pass; a ramp
comes to its corners by quarters of the plunge, and so down to that depth. The tool is there when
the pass ends, so no pass goes down twice, and the last one cuts all laps level. -/
theorem passes_at_depth {m : Machine ℝ}
    (hl : Layout.ofRectangle r m.position.point tool = .ok l) :
    let n := r.passes.repetitions.toNat
    let z := r.depthAfter m.position.z
    (r.execute tool m).rejection = none ∧
      ((r.execute tool m).machine.since m).filter Move.cuts =
        (List.range n).flatMap (fun k => (r.passMoves tool l m k).filter Move.cuts) ∧
      (∀ k < n,
        r.passMoves tool l m k =
            r.sinkMoves tool l m k ++ (r.legs l (k == 0)).flatMap (r.cutMoves tool l m k) ∧
          EachLeg (r.cutMoves tool l m k) (DeepAs l (r.cutMoves tool l m k) (z k) (z (k + 1)))
            (r.legStart tool l m k) (r.legs l (k == 0)) ∧
          (r.leaving tool l m k).2.position.z = z (k + 1)) ∧
      ∀ j < l.laps, .lap j ∈ r.legs l (n - 1 == 0) := by
  intro n z
  have hproper := Layout.Proper.of_ofRectangle hl
  refine ⟨?_, filter_cuts_execute hl, ?_, ?_⟩
  · rw [execute, hl]
  · intro k _
    obtain ⟨hlegs, hend⟩ := legs_deepAs hproper m k
    refine ⟨passMoves_eq m k, hlegs, ?_⟩
    have hleave : (r.leaving tool l m k).2.position =
        (r.entering tool l m k).2.position.afterAll (r.passMoves tool l m k) :=
      (emits_leaving m k).position_eq
    rw [hleave, passMoves_eq, Position.afterAll_append]
    exact hend
  · intro j hj
    exact laps_mem_legs (Layout.of_ofRectangle hl).1 hj

theorem rampedPocket_at_depth :
    ∃ l, Layout.ofRectangle rampedPocket onSurface.position.point .standard = .ok l ∧
      (∀ k < 2, (rampedPocket.leaving .standard l onSurface k).2.position.z =
        rampedPocket.depthAfter 0 (k + 1)) ∧
      rampedPocket.depthAfter 0 2 = -0.2 := by
  obtain ⟨l, hl⟩ := rampedPocket_layout
  obtain ⟨-, -, hpasses, -⟩ := passes_at_depth hl
  refine ⟨l, hl, ?_, ?_⟩
  · intro k hk
    exact (hpasses k hk).2.2
  · simp only [depthAfter, rampedPocket]
    norm_num

end Rectangle

end Toolpath
