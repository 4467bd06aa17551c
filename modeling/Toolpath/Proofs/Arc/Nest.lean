import Toolpath.Proofs.Arc.Cover
import Toolpath.Proofs.Arc.Depth
import Toolpath.Proofs.Arc.Samples

/-!
# The rings of a pocket, one by one

What one pass over a circular pocket emits, in exact arithmetic, for any stretch of the axes: down
to its depth, the rings from the outside in, each with the cut that joins it to the one before, and
back over the start at the safe height. The rings are whole circles around one center before the
stretch. After it neighbouring ones still start no further apart than the tool steps over.

* `ArcPlan.nest_range` — the moves of nested rings
* `ArcPlan.Concentric` — how the rings lie, and how many there are
* `ArcPlan.Rounds` — moves that go round a ring
* `ArcOrder.pocket_cuts_rings` — what an order of a pocket cuts
-/

namespace Toolpath

open Scalar RealScalar

/-! ## The moves of a pass -/

namespace ArcPlan

section

variable {α : Type} [Scalar α] (p : ArcPlan α)

/-- The moves along a ring. -/
def ringMoves (z feed : α) (v : Offset α) : List (Move α) :=
  p.followMoves (p.ringArc v) (.level z) feed

/-- The cut to the start of a ring with a number. The tool is at the start of the first one. -/
def joinMoves (feed : α) (offsets : Nat → Offset α) (j : Nat) : List (Move α) :=
  if j = 0 then [] else [.linearXY (p.stretch.point (p.ringStart (offsets j))) feed]

/-- To a ring with a number, and round it. -/
def roundMoves (z feed : α) (offsets : Nat → Offset α) (j : Nat) : List (Move α) :=
  p.joinMoves feed offsets j ++ p.ringMoves z feed (offsets j)

/-- Down to the depth of the next pass. -/
def sinkMoves (z feed : α) : List (Move α) :=
  if p.order.passes.plunge != 0 then [.linearZ (z + p.order.passes.plunge) feed] else []

theorem sink_snd (z : α) (m : Machine α) :
    (p.sink z m).2 = m.emitAll (p.sinkMoves z m.feeds.zPerMinute) := by
  unfold sink sinkMoves
  by_cases h : (p.order.passes.plunge != 0) = true
  · simp only [if_pos h]
    rfl
  · simp only [if_neg h]
    rfl

/-- **Nested rings are cut one after the other**, each from the start that the cut before it leads
to. -/
theorem nest_range (z : α) (m : Machine α) (offsets : Nat → Offset α) (count : Nat) :
    p.nest z m ((List.range count).map offsets) =
      m.emitAll ((List.range count).flatMap
        (p.roundMoves z m.feeds.xyPerMinute offsets)) := by
  have hconcat (v w : Offset α) (rest : List (Offset α)) :
      p.nest z m ((v :: rest) ++ [w]) =
        p.ring z ((p.nest z m (v :: rest)).lineTo (p.stretch.point (p.ringStart w))) w :=
    List.foldl_concat _ _ _ _
  induction count with
  | zero => rfl
  | succ count ih =>
    rw [List.range_succ, List.map_append, List.flatMap_append, List.flatMap_singleton,
      Machine.emitAll_append, ← ih]
    cases count with
    | zero => exact p.follow_eq _ _ m
    | succ count =>
      rw [List.range_succ_eq_map, List.map_cons, List.map_singleton, hconcat, ← List.map_cons,
        ← List.range_succ_eq_map, ih]
      refine (p.follow_eq _ _ _).trans ?_
      rw [roundMoves, joinMoves, if_neg count.succ_ne_zero, List.singleton_append,
        Machine.emitAll_cons]
      have hfeeds : ((m.emitAll ((List.range (count + 1)).flatMap
        (p.roundMoves z m.feeds.xyPerMinute offsets))).lineTo
          (p.stretch.point (p.ringStart (offsets (count + 1))))).feeds = m.feeds :=
        Machine.feeds_emitAll _ _
      rw [hfeeds, Machine.lineTo, Machine.feeds_emitAll]
      rfl

/-- **What a pass over a pocket emits:** the way down, its rings, and the way back over the
start. -/
theorem passMoves_of_pocket (hcut : p.order.cut = .pocket) {offsets : Nat → Offset α} {count : Nat}
    (hrings : p.rings = (List.range count).map offsets) (k : Nat) (m : Machine α) :
    p.passMoves k m =
      p.sinkMoves (p.entering k m).1 m.feeds.zPerMinute ++
        (List.range count).flatMap
          (p.roundMoves (p.leaving k m).1 m.feeds.xyPerMinute offsets) ++
        [.rapidZ p.tool.safeZ, .rapidXY p.origin] := by
  have hfst : (p.leaving k m).1 = (p.sink (p.entering k m).1 (p.entering k m).2).1 := by
    unfold leaving pass
    rw [hcut]
  have hsnd : (p.leaving k m).2 = (((p.sink (p.entering k m).1 (p.entering k m).2).2).emitAll
      ((List.range count).flatMap (p.roundMoves (p.leaving k m).1
        (p.sink (p.entering k m).1 (p.entering k m).2).2.feeds.xyPerMinute offsets))).emitAll
      [.rapidZ p.tool.safeZ, .rapidXY p.origin] := by
    rw [← p.nest_range, hfst, ← hrings]
    unfold leaving pass
    rw [hcut]
    rfl
  unfold passMoves
  rw [hsnd, p.sink_snd, Machine.feeds_emitAll, p.feeds_entering, ← Machine.emitAll_append,
    ← Machine.emitAll_append, Machine.since_emitAll, List.append_assoc]

/-- A pass over a pocket ends over the origin, at the safe height. -/
theorem leaving_position_of_pocket (hcut : p.order.cut = .pocket) (k : Nat) (m : Machine α) :
    (p.leaving k m).2.position = ⟨p.origin.x, p.origin.y, p.tool.safeZ⟩ := by
  unfold leaving pass
  rw [hcut]
  rfl

theorem cuts_roundMoves {z feed : α} {offsets : Nat → Offset α} {j : Nat} {d : Move α}
    (hd : d ∈ p.roundMoves z feed offsets j) : d.cuts = true := by
  rcases List.mem_append.mp hd with hd | hd
  · unfold joinMoves at hd
    split at hd
    · exact absurd hd List.not_mem_nil
    · rw [List.mem_singleton.mp hd]
      rfl
  · exact p.cuts_followMoves hd

/-- The cuts of a pass over a pocket are its rings. -/
theorem filter_cuts_of_pocket (hcut : p.order.cut = .pocket) {offsets : Nat → Offset α}
    {count : Nat} (hrings : p.rings = (List.range count).map offsets) (k : Nat) (m : Machine α) :
    (p.passMoves k m).filter Move.cuts =
      (List.range count).flatMap
        (p.roundMoves (p.leaving k m).1 m.feeds.xyPerMinute offsets) := by
  have hsink : (p.sinkMoves (p.entering k m).1 m.feeds.zPerMinute).filter Move.cuts = [] := by
    unfold sinkMoves
    split <;> rfl
  rw [p.passMoves_of_pocket hcut hrings, List.filter_append, List.filter_append, hsink,
    List.nil_append, List.filter_eq_self.mpr]
  · exact List.append_nil _
  · intro d hd
    obtain ⟨j, -, hd⟩ := List.mem_flatMap.mp hd
    exact p.cuts_roundMoves hd

end

end ArcPlan

/-! ## How the rings lie -/

/-- A stretch makes no offset longer than its greater proportion does. -/
theorem Stretch.length_offset_le (s : Stretch ℝ) {k : ℝ} (hx : |s.scale.x| ≤ k)
    (hy : |s.scale.y| ≤ k) (v : Offset ℝ) : (s.offset v).length ≤ k * v.length := by
  have hk : 0 ≤ k := (abs_nonneg _).trans hx
  rw [Offset.length_le_iff (mul_nonneg hk v.length_nonneg), mul_pow, Offset.length_sq]
  have hx2 : s.scale.x ^ 2 ≤ k ^ 2 := sq_le_sq.mpr (by rwa [abs_of_nonneg hk])
  have hy2 : s.scale.y ^ 2 ≤ k ^ 2 := sq_le_sq.mpr (by rwa [abs_of_nonneg hk])
  have hxv := mul_le_mul_of_nonneg_left hx2 (sq_nonneg v.x)
  have hyv := mul_le_mul_of_nonneg_left hy2 (sq_nonneg v.y)
  show (v.x * s.scale.x) ^ 2 + (v.y * s.scale.y) ^ 2 ≤ _
  rw [mul_pow, mul_pow]
  linarith

namespace ArcPlan

section

variable (p : ArcPlan ℝ)

/-- The distance between two rings, before the stretch. -/
noncomputable def ringStep : ℝ := p.order.ringStep p.tool

/-- The start of a ring with a number, seen from the origin. -/
noncomputable def ringOffset (j : ℕ) : Offset ℝ :=
  Pocket.ringOffset p.order.center p.ringStep j

/-- Where a ring with a number starts after the stretch. -/
noncomputable def ringEntry (j : ℕ) : Point ℝ := p.stretch.point (p.ringStart (p.ringOffset j))

/-- **Rings that lie one inside the other**, a number of them. Before the stretch they are whole
circles around one center. -/
structure Concentric (count : ℕ) : Prop where
  rings_eq : p.rings = (List.range count).map p.ringOffset
  lt_iff : ∀ j, j < count ↔ j * p.ringStep < p.order.center.length
  pos : 1 ≤ count
  le : count ≤ p.order.center.length / p.ringStep + 1
  middle_eq : ∀ j, (p.ringArc (p.ringOffset j)).centerPoint = p.middle
  radius_eq : ∀ j < count,
    (p.ringArc (p.ringOffset j)).radius = p.order.center.length - j * p.ringStep
  radius_pos : ∀ j < count, 0 < (p.ringArc (p.ringOffset j)).radius
  sweep_eq : ∀ j, (p.ringArc (p.ringOffset j)).sweep = 2 * Real.pi
  inside : ∀ j < count, |(p.ringOffset j).x| ≤ p.order.center.length ∧
    |(p.ringOffset j).y| ≤ p.order.center.length
  /-- Neighbouring rings start no further apart than the tool steps over. -/
  apart : ∀ j, ((p.ringEntry j).wayTo (p.ringEntry (j + 1))).length ≤ p.tool.stepOver
  /-- The innermost ring is no larger than one step. -/
  innermost : (p.ringArc (p.ringOffset (count - 1))).radius ≤ p.ringStep

/-- Moves that go round a ring: one circular move around the stretched center, or segments that
follow the circle. A ring that is no larger than the tolerance has no segments. -/
structure Rounds (v : Offset ℝ) (z feed : ℝ) (ds : List (Move ℝ)) : Prop where
  direct : p.segmented = false →
    ds = [.arc p.clockwise (p.stretch.point (p.ringStart v))
      ((p.stretch.point (p.ringStart v)).wayTo (p.stretch.point p.middle)) feed]
  /-- The circular move passes over the whole stretched circle, and over nothing else. -/
  direct_round : p.segmented = false → ∀ q : Position ℝ,
    q.point = p.stretch.point (p.ringStart v) → ∀ x,
      (PassesOver (fun d => d.kind.isArc) q ds x ↔
        ((p.stretch.point p.middle).wayTo x).length = |p.order.scale.x| * (p.ringArc v).radius)
  sampled : p.segmented = true → tolerance < (p.ringArc v).radius →
    (p.ringArc v).SampledBy p.stretch (.level z)
      (Sampler.stepFor (2 * Real.pi) p.tool.arcStep) feed ds
  tiny : p.segmented = true → (p.ringArc v).radius ≤ tolerance → ds = []

variable {p}

theorem centerPoint_ringArc (v : Offset ℝ) : (p.ringArc v).centerPoint = p.middle := by
  simp only [ringArc, Arc.centerPoint, ringStart, middle, Point.shift, Offset.sub]
  congr 1 <;> ring

theorem wayTo_middle (v : Offset ℝ) :
    (p.ringStart v).wayTo p.middle = p.order.center.sub v := by
  simp only [ringStart, middle, Point.shift, Point.wayTo, Offset.sub]
  congr 1 <;> ring

theorem ringMoves_of_direct (h : p.segmented = false) (v : Offset ℝ) (z feed : ℝ) :
    p.ringMoves z feed v = [.arc p.clockwise (p.stretch.point (p.ringStart v))
      ((p.stretch.point (p.ringStart v)).wayTo (p.stretch.point p.middle)) feed] := by
  unfold ringMoves followMoves circularMove
  rw [h, if_neg Bool.false_ne_true, Stretch.wayTo_point, wayTo_middle]
  rfl

/-- **The moves of a ring go round it.** -/
theorem rounds_ringMoves (hscale : p.order.scale.x ≠ 0)
    (heven : p.segmented = false → |p.order.scale.x| = |p.order.scale.y|) {v : Offset ℝ}
    (hv : 0 < (p.ringArc v).radius) (z feed : ℝ) :
    p.Rounds v z feed (p.ringMoves z feed v) where
  direct h := ringMoves_of_direct h v z feed
  direct_round h q hq x := by
    have hfar : ((p.stretch.point p.middle).wayTo (p.stretch.point (p.ringStart v))).length =
        |p.order.scale.x| * (p.ringArc v).radius := by
      rw [Stretch.wayTo_point, Stretch.length_offset (abs_pos.mpr hscale) rfl (heven h).symm,
        ← (p.ringArc v).length_wayTo_start, centerPoint_ringArc]
      rfl
    rw [ringMoves_of_direct h, passesOver_arc, hq, Point.shift_wayTo, Point.onArc_round, hfar]
    rw [hfar]
    exact mul_pos (abs_pos.mpr hscale) hv
  sampled h hr := by
    have hfull := not_degenerate_of_closed (p.closed_ringArc v) hr
    have hround := (Arc.sampledBy_moves hfull p.stretch (.level z) p.tool.arcStep feed).1
    rw [(p.ringArc v).sweep_of_closed (p.closed_ringArc v)] at hround
    unfold ringMoves followMoves
    rwa [if_pos h]
  tiny h hr := by
    have hnone : (Sampler.ofArc (p.ringArc v) p.stretch (.level z) p.tool.arcStep
      feed).degenerate = true := decide_eq_true (Or.inl hr)
    unfold ringMoves followMoves Sampler.moves
    rw [if_pos h, if_pos hnone]

theorem radius_ringArc (hcenter : 0 < p.order.center.length) (j : ℕ) :
    (p.ringArc (p.ringOffset j)).radius = |p.order.center.length - j * p.ringStep| := by
  set size := p.order.center.length with hsize
  have hsub : p.order.center.sub (p.ringOffset j) =
      p.order.center.scale (1 - j * p.ringStep / size) (1 - j * p.ringStep / size) := by
    simp only [ringOffset, Pocket.ringOffset, Offset.sub, Offset.scale, ← hsize]
    congr 1 <;> ring
  show (p.order.center.sub (p.ringOffset j)).length = _
  rw [hsub, Offset.length_scale, ← hsize, ← abs_of_pos hcenter, ← abs_mul, abs_of_pos hcenter]
  congr 1
  field_simp

theorem length_ringOffset (hcenter : 0 < p.order.center.length) (hstep : 0 ≤ p.ringStep) (j : ℕ) :
    (p.ringOffset j).length = j * p.ringStep := by
  have hnonneg : 0 ≤ j * p.ringStep / p.order.center.length := by positivity
  rw [ringOffset, Pocket.ringOffset, Offset.length_scale, abs_of_nonneg hnonneg,
    div_mul_cancel₀ _ hcenter.ne']

/-- One ring to the next is a step towards the center, and the rings are closer together than the
tool steps over by as much as the stretch moves them apart. -/
theorem length_wayTo_ringEntry (hcenter : 0 < p.order.center.length) (hstep : 0 < p.ringStep)
    (hscale : p.order.scale.x ≠ 0) (j : ℕ) :
    ((p.ringEntry j).wayTo (p.ringEntry (j + 1))).length ≤ p.tool.stepOver := by
  set size := p.order.center.length with hsize
  have hway : (p.ringStart (p.ringOffset j)).wayTo (p.ringStart (p.ringOffset (j + 1))) =
      p.order.center.scale (p.ringStep / size) (p.ringStep / size) := by
    simp only [ringOffset, Pocket.ringOffset, ringStart, Point.shift, Point.wayTo, Offset.scale,
      ← hsize]
    push_cast
    congr 1 <;> ring
  have hmax : 0 < Max.max |p.order.scale.x| |p.order.scale.y| :=
    lt_max_of_lt_left (abs_pos.mpr hscale)
  have hlength := p.stretch.length_offset_le (le_max_left |p.order.scale.x| |p.order.scale.y|)
    (le_max_right _ _) (p.order.center.scale (p.ringStep / size) (p.ringStep / size))
  rw [Offset.length_scale, ← hsize, abs_of_pos (div_pos hstep hcenter),
    div_mul_cancel₀ _ hcenter.ne'] at hlength
  unfold ringEntry
  rw [Stretch.wayTo_point, hway]
  refine hlength.trans_eq ?_
  show _ * (p.tool.stepOver / Max.max |p.order.scale.x| |p.order.scale.y|) = _
  exact mul_div_cancel₀ _ hmax.ne'

/-- **How the rings of a pocket lie.** -/
theorem concentric {n : ℕ} (hcenter : 0 < p.order.center.length)
    (hn : passCount p.order.center.length p.ringStep = .ok n) (hscale : p.order.scale.x ≠ 0) :
    p.Concentric ⌈p.order.center.length / p.ringStep⌉₊ := by
  have hstep : 0 < p.ringStep := (of_passCount hn).1
  set size := p.order.center.length with hsize
  have hlt (j : ℕ) : j < ⌈size / p.ringStep⌉₊ ↔ j * p.ringStep < size := by
    rw [Nat.lt_ceil, lt_div_iff₀ hstep]
  have hpos : 0 < ⌈size / p.ringStep⌉₊ := Nat.ceil_pos.mpr (div_pos hcenter hstep)
  have hinside {j : ℕ} (hj : j < ⌈size / p.ringStep⌉₊) : 0 < size - j * p.ringStep :=
    sub_pos.mpr ((hlt j).mp hj)
  have hradius {j : ℕ} (hj : j < ⌈size / p.ringStep⌉₊) :
      (p.ringArc (p.ringOffset j)).radius = size - j * p.ringStep :=
    (radius_ringArc hcenter j).trans (abs_of_pos (hinside hj))
  refine
    { rings_eq := Pocket.rings_eq hcenter hn
      lt_iff := hlt
      pos := hpos
      le := (Nat.ceil_lt_add_one (div_pos hcenter hstep).le).le
      middle_eq := fun j => centerPoint_ringArc _
      radius_eq := fun j hj => hradius hj
      radius_pos := fun j hj => (hradius hj).symm ▸ hinside hj
      sweep_eq := fun j => (p.ringArc (p.ringOffset j)).sweep_of_closed (p.closed_ringArc _)
      inside := ?_
      apart := length_wayTo_ringEntry hcenter hstep hscale
      innermost := ?_ }
  · intro j hj
    have hlength : (p.ringOffset j).length ≤ size :=
      (length_ringOffset hcenter hstep.le j).trans_le ((hlt j).mp hj).le
    obtain ⟨hx, hy⟩ := (p.ringOffset j).abs_le_length
    exact ⟨hx.trans hlength, hy.trans hlength⟩
  · have hlast : ⌈size / p.ringStep⌉₊ - 1 < ⌈size / p.ringStep⌉₊ := Nat.sub_lt hpos one_pos
    rw [hradius hlast, Nat.cast_sub hpos, Nat.cast_one]
    have hceil : size / p.ringStep ≤ ⌈size / p.ringStep⌉₊ := Nat.le_ceil _
    rw [div_le_iff₀ hstep] at hceil
    linarith

/-- Moves that go round a ring end where they start. -/
theorem Rounds.point_afterAll {v : Offset ℝ} {z feed : ℝ} {ds : List (Move ℝ)}
    (h : p.Rounds v z feed ds) {q : Position ℝ}
    (hq : q.point = p.stretch.point (p.ringStart v)) :
    (q.afterAll ds).point = p.stretch.point (p.ringStart v) := by
  cases hs : p.segmented with
  | false =>
    rw [h.direct hs]
    rfl
  | true =>
    by_cases hr : (p.ringArc v).radius ≤ tolerance
    · rw [h.tiny hs hr]
      exact hq
    · have hround := h.sampled hs (not_le.mp hr)
      obtain ⟨es, e, rfl⟩ : ∃ es e, ds = es ++ [e] := by
        have hlong := hround.four_le
        rcases List.eq_nil_or_concat' ds with rfl | hsome
        · exact absurd hlong (by decide)
        · exact hsome
      obtain ⟨hx, hy⟩ := hround.last_goesTo e List.getLast?_concat
      rw [Position.afterAll_append]
      simp only [Position.afterAll_cons, Position.afterAll_nil, Position.after, Position.point, hx,
        hy, Option.getD_some]
      rfl

/-- The first ring starts over the origin. -/
theorem ringEntry_zero : p.ringEntry 0 = p.origin := by
  have hstart : p.ringStart (p.ringOffset 0) = p.origin := by
    simp [ringStart, ringOffset, Pocket.ringOffset, Offset.scale, Point.shift]
  rw [ringEntry, hstart]
  exact p.stretch.point_origin

/-- **A ring of a pass begins at its start.** The first one begins over the origin, and a cut leads
to each of the others. -/
theorem point_before_ring (hcut : p.order.cut = .pocket) {m : Machine ℝ}
    (hm : m.position.point = p.origin) (k : ℕ) (z feed : ℝ) (j : ℕ) :
    ((p.entering k m).2.position.afterAll
      (p.sinkMoves (p.entering k m).1 m.feeds.zPerMinute ++
        (List.range j).flatMap (p.roundMoves z feed p.ringOffset) ++
        p.joinMoves feed p.ringOffset j)).point = p.ringEntry j := by
  rw [Position.afterAll_append]
  cases j with
  | zero =>
    have hsink := (p.lifts_sink (p.entering k m).1 (p.entering k m).2).point_eq
    rw [sink_snd, Machine.position_emitAll, p.feeds_entering] at hsink
    rw [ringEntry_zero, ← p.entering_point_of_pocket hcut hm k, ← hsink]
    simp [joinMoves]
  | succ j => rfl

end

end ArcPlan

/-! ## The pocket of an order -/

namespace ArcOrder

/-- **What an order of a pocket cuts.** Its rings lie one inside the other around one center, from
the outermost as far as there is a ring inside the radius. Every pass goes down to its depth, round
each of them in turn, and back over the start at the safe height, and nothing else is cut. -/
theorem pocket_cuts_rings {o : ArcOrder ℝ} {tool : Tool ℝ} {m : Machine ℝ}
    (hc : o.check tool = .ok ()) (hcut : o.cut = .pocket) (command : CommandKind) :
    let p := ArcPlan.ofOrder o tool m
    let z := o.depthAfter m.position.z
    let feed := m.feeds.xyPerMinute
    let sink := fun k => p.sinkMoves (z k) m.feeds.zPerMinute
    let rounds := fun k => p.roundMoves (z (k + 1)) feed p.ringOffset
    (o.execute command tool m).rejection = none ∧ ∃ count : ℕ, p.Concentric count ∧
      ((o.execute command tool m).machine.since m).filter Move.cuts =
        (List.range o.passes.repetitions.toNat).flatMap
          (fun k => (List.range count).flatMap (rounds k)) ∧
      ∀ k < o.passes.repetitions.toNat,
        p.passMoves k m = sink k ++ (List.range count).flatMap (rounds k) ++
          [.rapidZ tool.safeZ, .rapidXY m.position.point] ∧
        (∀ j < count,
          p.Rounds (p.ringOffset j) (z (k + 1)) feed
            (p.ringMoves (z (k + 1)) feed (p.ringOffset j)) ∧
          ∃ q, q = (p.entering k m).2.position.afterAll
              (sink k ++ (List.range j).flatMap (rounds k) ++ p.joinMoves feed p.ringOffset j) ∧
            q.point = p.ringEntry j ∧
            (q.afterAll (p.ringMoves (z (k + 1)) feed (p.ringOffset j))).point = p.ringEntry j) ∧
        (p.leaving k m).2.position = ⟨m.position.x, m.position.y, tool.safeZ⟩ := by
  intro p z feed sink rounds
  obtain ⟨hcenter, n, hn⟩ := of_check_pocket hc hcut
  obtain ⟨_, hv, -⟩ := exists_of_bind_eq_ok hc
  have hscale : p.order.scale.x ≠ 0 := (scale_ne_zero_of_validate hv).1
  have heven (h : p.segmented = false) : |p.order.scale.x| = |p.order.scale.y| := by
    have hsame : (|o.scale.x| != |o.scale.y|) = false := (Bool.or_eq_false_iff.mp h).1
    rwa [← Bool.not_eq_true, bne_real, not_not] at hsame
  have hlie := ArcPlan.concentric (p := p) hcenter hn hscale
  have hentering (k : ℕ) : (p.entering k m).1 = z k := ArcPlan.entering_fst k m
  have hleaving (k : ℕ) : (p.leaving k m).1 = z (k + 1) := ArcPlan.leaving_fst k m
  refine ⟨by rw [execute_of_check hc], _, hlie, ?_, ?_⟩
  · have hall := p.filter_cuts_carryOut m
    rw [p.bottomMoves_of_pocket hcut, List.filter_nil, List.append_nil] at hall
    rw [execute_of_check hc]
    refine hall.trans (List.flatMap_congr fun k _ => ?_)
    rw [p.filter_cuts_of_pocket hcut hlie.rings_eq, hleaving]
  · intro k _
    have hpass := p.passMoves_of_pocket hcut hlie.rings_eq k m
    rw [hentering, hleaving] at hpass
    refine ⟨hpass, fun j hj => ?_, p.leaving_position_of_pocket hcut k m⟩
    have hround := ArcPlan.rounds_ringMoves hscale heven (hlie.radius_pos j hj) (z (k + 1)) feed
    have hstart := ArcPlan.point_before_ring (p := p) hcut (m := m) rfl k (z (k + 1)) feed j
    rw [hentering] at hstart
    exact ⟨hround, _, rfl, hstart, hround.point_afterAll hstart⟩

/-! ### A wide ellipse -/

/-- A pocket around a center to the right, twice as wide as it is high and mirrored. -/
noncomputable def wideEllipse : ArcOrder ℝ where
  finish := ⟨0, 0⟩
  center := ⟨1, 0⟩
  turn := .clockwise
  passes := ⟨-1, 2, false, false⟩
  scale := ⟨2, -1⟩
  cut := .pocket

theorem wideEllipse_length : wideEllipse.center.length = 1 := (length_alongX 1).trans abs_one

theorem wideEllipse_ringStep : wideEllipse.ringStep .standard = 0.1125 := by
  show (Tool.standard : Tool ℝ).stepOver / Max.max |(2 : ℝ)| |(-1 : ℝ)| = 0.1125
  rw [stepOver_standard, abs_two, abs_neg, abs_one, max_eq_left one_le_two]
  norm_num

theorem wideEllipse_check : wideEllipse.check .standard = .ok () := by
  have hcenter : ¬wideEllipse.center.Negligible := not_negligible_alongX (by norm_num)
  refine check_of_pocket rfl (by decide) two_ne_zero (neg_ne_zero.mpr one_ne_zero) hcenter ?_ ?_
  · rw [wideEllipse_ringStep]
    norm_num
  · rw [wideEllipse_length, wideEllipse_ringStep, maxPasses]
    norm_num

/-- Each of its two passes goes round nine rings. -/
theorem wideEllipse_cuts_rings :
    let p := ArcPlan.ofOrder wideEllipse .standard overOrigin
    wideEllipse.check .standard = .ok () ∧ p.Concentric 9 ∧
      ((wideEllipse.execute .arc .standard overOrigin).machine.since overOrigin).filter Move.cuts =
        (List.range 2).flatMap fun k => (List.range 9).flatMap
          (p.roundMoves (wideEllipse.depthAfter 0 (k + 1)) overOrigin.feeds.xyPerMinute
            p.ringOffset) := by
  intro p
  obtain ⟨-, count, hlie, hcuts, -⟩ :=
    pocket_cuts_rings wideEllipse_check rfl (m := overOrigin) .arc
  have hlast (j : ℕ) : j < count ↔ j * (0.1125 : ℝ) < 1 := by
    rw [← wideEllipse_ringStep, ← wideEllipse_length]
    exact hlie.lt_iff j
  have hmore : 8 < count := (hlast 8).mpr (by norm_num)
  have hless : ¬9 < count := fun h => absurd ((hlast 9).mp h) (by norm_num)
  obtain rfl : count = 9 := by omega
  exact ⟨wideEllipse_check, hlie, hcuts⟩

end ArcOrder

end Toolpath
