import Toolpath.Arc.Sampler
import Toolpath.Proofs.RealScalar
import Toolpath.Proofs.Trail

/-!
# The segments of an arc

The fold over the segments of an arc is a fold over a list of moves (`Sampler.moves`). All of them
are straight cuts with a depth word. In exact arithmetic the limit on their number is never reached,
so the list of an arc that is not degenerate ends in the segment to the end of the arc.

* `Sampler.cut_eq` — cutting an arc is emitting its moves
* `Sampler.mem_moves` — what each move is
* `Sampler.moves_eq` — which moves there are, in exact arithmetic
* `Sampler.moves_eq_append` — where they end
-/

namespace Toolpath

open Scalar

namespace Sampler

section

variable {α : Type} [Scalar α]

/-- The segment that ends on the arc, at an angle from the start. -/
def segment (s : Sampler α) (angle : α) : Move α := s.moveTo (s.point angle) angle

/-- The segments from an angle on, at most `limit` of them. -/
def movesFrom (s : Sampler α) : Nat → α → List (Move α)
  | 0, _ => []
  | limit + 1, angle =>
    if s.sweep - angle < snapFactor * s.step then [s.lastMove]
    else
      s.moveTo (s.point (angle + s.step)) (angle + s.step) ::
        s.movesFrom limit (angle + s.step)

/-- The segments of an arc. -/
def moves (s : Sampler α) : List (Move α) :=
  if s.degenerate then [] else s.movesFrom s.bound 0

theorem foldFrom_eq {β : Type} (s : Sampler α) (f : β → Move α → β) (limit : Nat) (angle : α)
    (b : β) : s.foldFrom f limit angle b = (s.movesFrom limit angle).foldl f b := by
  induction limit generalizing angle b with
  | zero => rfl
  | succ limit ih =>
    unfold foldFrom movesFrom
    split
    · rfl
    · rw [ih, List.foldl_cons]

/-- **Cutting an arc is emitting its segments.** -/
theorem cut_eq (s : Sampler α) (m : Machine α) : s.cut m = m.emitAll s.moves := by
  unfold cut fold moves
  split
  · rfl
  · exact foldFrom_eq s Machine.emit s.bound 0 m

theorem mem_movesFrom {s : Sampler α} {limit : Nat} {angle : α} {d : Move α}
    (h : d ∈ s.movesFrom limit angle) : ∃ p a, d = s.moveTo p a := by
  induction limit generalizing angle with
  | zero => exact absurd h List.not_mem_nil
  | succ limit ih =>
    unfold movesFrom at h
    split at h
    · rw [List.mem_singleton] at h
      exact ⟨_, _, h⟩
    · rcases List.mem_cons.mp h with rfl | h
      · exact ⟨_, _, rfl⟩
      · exact ih h

theorem mem_moves {s : Sampler α} {d : Move α} (h : d ∈ s.moves) : ∃ p a, d = s.moveTo p a := by
  unfold moves at h
  split at h
  · exact absurd h List.not_mem_nil
  · exact mem_movesFrom h

end

/-! ## Exact arithmetic -/

section

variable {s : Sampler ℝ}

/-- **The segments from an angle on.** As long as more than one step is left, they are one step long
each; then comes the last. -/
theorem movesFrom_eq_take {n : ℕ} {angle : ℝ}
    (hmore : ∀ i < n, snapFactor * s.step ≤ s.sweep - (angle + i * s.step))
    (hlast : s.sweep - (angle + n * s.step) < snapFactor * s.step) (limit : ℕ) :
    s.movesFrom limit angle =
      ((List.range n).map (fun i => s.segment (angle + (i + 1 : ℕ) * s.step)) ++
        [s.lastMove]).take limit := by
  induction limit generalizing n angle with
  | zero => rfl
  | succ limit ih =>
    unfold movesFrom
    cases n with
    | zero =>
      rw [Nat.cast_zero, zero_mul, add_zero] at hlast
      rw [if_pos hlast, List.range_zero, List.map_nil, List.nil_append, List.take_succ_cons,
        List.take_nil]
    | succ n =>
      have hfirst := hmore 0 n.succ_pos
      rw [Nat.cast_zero, zero_mul, add_zero] at hfirst
      have hshift (i : ℕ) : angle + (i + 1 : ℕ) * s.step = angle + s.step + i * s.step := by
        push_cast
        ring
      rw [if_neg (not_lt.mpr hfirst), List.range_succ_eq_map, List.map_cons, List.map_map,
        List.cons_append, List.take_succ_cons, ih (n := n)]
      · congr 1
        · rw [hshift, Nat.cast_zero, zero_mul, add_zero, segment]
        · congr 3
          funext i
          rw [Function.comp_apply, hshift (i + 1)]
      · intro i hi
        rw [← hshift]
        exact hmore (i + 1) (Nat.succ_lt_succ hi)
      · rwa [← hshift]

/-- How many segments come before the last. -/
theorem exists_count (hstep : 0 < s.step) :
    ∃ n : ℕ, s.sweep - n * s.step < snapFactor * s.step ∧
      ∀ i < n, snapFactor * s.step ≤ s.sweep - i * s.step := by
  classical
  have hsome : ∃ n : ℕ, s.sweep - n * s.step < snapFactor * s.step := by
    obtain ⟨n, hn⟩ := exists_nat_gt (s.sweep / s.step)
    have hsnap : (0 : ℝ) < snapFactor * s.step := mul_pos (by norm_num [snapFactor]) hstep
    have hlt : s.sweep < n * s.step := (div_lt_iff₀ hstep).mp hn
    exact ⟨n, by linarith⟩
  exact ⟨Nat.find hsome, Nat.find_spec hsome, fun i hi => not_lt.mp (Nat.find_min hsome hi)⟩

/-- The limit on the number of segments allows for the whole angle. -/
theorem sweep_lt_bound (hstep : 0 < s.step) : s.sweep < s.bound * s.step := by
  have hceil : s.sweep / s.step ≤ (⌈s.sweep / s.step⌉ : ℝ) := Int.le_ceil _
  have hfloor : ((⌈s.sweep / s.step⌉ : ℤ) : ℝ) ≤ toNat (ceil (s.sweep / s.step)) := by
    show ((⌈s.sweep / s.step⌉ : ℤ) : ℝ) ≤ (⌊((⌈s.sweep / s.step⌉ : ℤ) : ℝ)⌋₊ : ℝ)
    have hlt : ⌈s.sweep / s.step⌉ < (⌊((⌈s.sweep / s.step⌉ : ℤ) : ℝ)⌋₊ : ℤ) + 1 := by
      exact_mod_cast Nat.lt_floor_add_one ((⌈s.sweep / s.step⌉ : ℤ) : ℝ)
    exact_mod_cast Int.lt_add_one_iff.mp hlt
  have hbound : s.sweep / s.step < s.bound := by
    unfold bound
    push_cast
    have hpos : (0 : ℝ) ≤ toNat (ceil (s.sweep / s.step)) := Nat.cast_nonneg _
    linarith
  rwa [div_lt_iff₀ hstep] at hbound

/-- **The segments of an arc that is not degenerate:** the limit on their number is not reached. -/
theorem moves_eq (hs : s.degenerate = false) (hstep : 0 < s.step) {n : ℕ}
    (hlast : s.sweep - n * s.step < snapFactor * s.step)
    (hmore : ∀ i < n, snapFactor * s.step ≤ s.sweep - i * s.step) :
    s.moves =
      (List.range n).map (fun i => s.segment ((i + 1 : ℕ) * s.step)) ++ [s.lastMove] := by
  have hlimit : n + 1 ≤ s.bound := by
    cases n with
    | zero => exact Nat.le_add_left 1 _
    | succ n =>
      have hsnap : (snapFactor : ℝ) = 1.01 := rfl
      have hleft := hmore n n.lt_succ_self
      have hlt : ((n + 1 : ℕ) : ℝ) * s.step < s.bound * s.step := by
        rw [hsnap] at hleft
        push_cast
        linarith [sweep_lt_bound hstep]
      exact_mod_cast lt_of_mul_lt_mul_right hlt hstep.le
  have hmoves : s.moves = s.movesFrom s.bound (Scalar.ofNat 0) := by
    unfold moves
    rw [hs]
    rfl
  rw [hmoves, RealScalar.ofNat_real, Nat.cast_zero, movesFrom_eq_take (n := n)]
  · rw [List.take_of_length_le]
    · simp only [zero_add]
    · simpa using hlimit
  · simpa only [zero_add] using hmore
  · rwa [zero_add]

/-- The angles at which the segments before the last one end grow, and stay below the whole angle: a
segment that is not the last leaves some angle. -/
theorem angles_isChain (hsweep : 0 < s.sweep) (hstep : 0 < s.step) {n : ℕ}
    (hmore : ∀ i < n, snapFactor * s.step ≤ s.sweep - i * s.step) :
    (0 :: ((List.range n).map (fun i => ((i + 1 : ℕ) : ℝ) * s.step) ++ [s.sweep])).IsChain
      (· < ·) := by
  rw [List.isChain_iff_pairwise, List.pairwise_cons, List.pairwise_append, List.pairwise_map]
  refine ⟨?_, ?_, List.pairwise_singleton _ _, ?_⟩
  · intro angle hangle
    rcases List.mem_append.mp hangle with hangle | hangle
    · obtain ⟨i, -, rfl⟩ := List.mem_map.mp hangle
      exact mul_pos (by exact_mod_cast i.succ_pos) hstep
    · rwa [List.mem_singleton.mp hangle]
  · refine List.pairwise_lt_range.imp fun {i j} hij => ?_
    exact mul_lt_mul_of_pos_right (by exact_mod_cast Nat.succ_lt_succ hij) hstep
  · intro angle hangle last hend
    obtain ⟨i, hi, rfl⟩ := List.mem_map.mp hangle
    have hsnap : (snapFactor : ℝ) = 1.01 := rfl
    have hleft := hmore i (List.mem_range.mp hi)
    rw [hsnap] at hleft
    rw [List.mem_singleton.mp hend]
    push_cast
    linarith

/-- **The segments of an arc that is not degenerate end in the one to its end**, and the others end
on the arc, each further along than the one before. -/
theorem moves_eq_append (hs : s.degenerate = false) (hsweep : 0 < s.sweep) (hstep : 0 < s.step) :
    ∃ angles : List ℝ,
      s.moves = angles.map s.segment ++ [s.lastMove] ∧
        (0 :: (angles ++ [s.sweep])).IsChain (· < ·) := by
  obtain ⟨n, hlast, hmore⟩ := exists_count hstep
  refine ⟨_, ?_, angles_isChain hsweep hstep hmore⟩
  rw [List.map_map]
  exact moves_eq hs hstep hlast hmore

/-- The step of a sampler that has an angle to go through. -/
theorem stepFor_pos {sweep arcStep : ℝ} (h : 0 < sweep) : 0 < stepFor sweep arcStep := by
  have hquarter : (0 : ℝ) < 0.25 * sweep := by linarith
  unfold stepFor
  split
  · rename_i harc
    rw [RealScalar.real_zero] at harc
    exact lt_min harc hquarter
  · exact hquarter

end

end Sampler

theorem Depth.along_ramp {z plunge : ℝ} (h : plunge ≠ 0) (part : ℝ) :
    (Depth.ramp z plunge).along part = z + plunge * part :=
  if_pos (RealScalar.bne_zero_real.mpr h)

/-- Where nothing goes down, the depth is the same all the way. -/
theorem Depth.along_of_level {d : Depth ℝ} (h : d.ramps = false) (part : ℝ) :
    d.along part = d.final := by
  cases d with
  | level z => rfl
  | ramp z plunge =>
    have hflat : ¬(plunge != (@OfNat.ofNat ℝ 0 (instOfNatScalar 0))) = true := by
      rw [show (plunge != _) = false from h]
      exact Bool.false_ne_true
    rw [along, if_neg hflat, final]

/-- The depth at the end is reached when the whole angle is done. -/
theorem Depth.along_one (d : Depth ℝ) : d.along 1 = d.final := by
  cases d with
  | level z => rfl
  | ramp z plunge =>
    show (if (plunge != (@OfNat.ofNat ℝ 0 (instOfNatScalar 0))) = true then z + plunge * 1
      else z + plunge) = z + plunge
    rw [mul_one, ite_self]

/-- An arc that is not degenerate has a radius. -/
theorem Arc.radius_pos {a : Arc ℝ} (h : ¬a.Degenerate) : 0 < a.radius :=
  RealScalar.tolerance_pos.trans (not_le.mp fun hle => h (Or.inl hle))

/-- It goes through some angle. -/
theorem Arc.sweep_pos {a : Arc ℝ} (h : ¬a.Degenerate) : 0 < a.sweep := by
  have hmin : (minSweep : ℝ) = 1e-5 := rfl
  have hle : (1e-5 : ℝ) ≤ a.sweep := by
    rw [← hmin]
    exact not_lt.mp fun hlt => h (Or.inr hlt)
  linarith

end Toolpath
