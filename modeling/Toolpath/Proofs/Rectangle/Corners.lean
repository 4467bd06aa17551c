import Toolpath.Proofs.Rectangle.Legs
import Toolpath.Proofs.Rectangle.Travel

/-!
# Laps in their place

Every lap of a rectangle is closed. The tool is at the start corner when a lap begins, goes to the
four corners in their order, and ends at the start corner again. The approach and the way back take
the tool to the first of these corners unless it is there within the tolerance, so only the first
lap of a pass may begin a little beside its corner.

* `Position.At` — where the approach and the way back end
* `Rectangle.entering_at` — every pass begins at the start corner
* `Rectangle.legs_begin` — every leg of a pass begins where it should
* `Rectangle.laps_in_place` — every lap begins and ends at its start corner
-/

namespace Toolpath

open Scalar

variable {α : Type} [Scalar α]

/-- At a point: exactly there, or over it within the tolerance. -/
def Position.At (p : Position α) (q : Point α) : Prop := p.point = q ∨ p.Over q

theorem Position.At.congr {p p' : Position α} {q : Point α} (h : p.At q) (hp : p'.point = p.point) :
    p'.At q := by
  rcases h with h | h
  · exact Or.inl (hp.trans h)
  · right
    rw [Over, hp]
    exact h

/-- In exact arithmetic a point is over itself. -/
theorem Position.at_iff_over {p : Position ℝ} {q : Point ℝ} : p.At q ↔ p.Over q := by
  constructor
  · rintro (h | h)
    · rw [Over, h]
      exact RealScalar.near_refl q
    · exact h
  · intro h
    exact Or.inr h

/-! ## Where passes begin -/

theorem Machine.approach_at (m : Machine α) (tool : Tool α) (entry : Point α) (depth : α) :
    (m.approach tool entry depth).position.At entry := by
  rw [approach_eq]
  split
  · exact Or.inr ‹_›
  · exact Or.inl (lifts_lowered _ depth).point_eq

namespace Rectangle

variable {r : Rectangle α} {tool : Tool α} {l : Layout α}

theorem goBack_at (isLast : Bool) (z : α) (m : Machine α) :
    (goBack tool l isLast z m).position.At (l.entry 0) := by
  unfold goBack
  split
  · exact Or.inr ‹_›
  · cases isLast <;> exact Or.inl rfl

/-- **Every pass begins at the start corner.** -/
theorem entering_at (m : Machine α) (k : Nat) :
    (r.entering tool l m k).2.position.At (l.entry 0) := by
  cases k with
  | zero => exact m.approach_at tool (l.entry 0) _
  | succ k => exact goBack_at false _ _

theorem legStart_point (m : Machine α) (k : Nat) :
    (r.legStart tool l m k).point = (r.entering tool l m k).2.position.point := by
  unfold legStart sinkMoves descent
  split <;> rfl

/-! ## Laps -/

omit [Scalar α] in
theorem stops_lines (feed : α) (ps : List (Point α)) (p : Position α) :
    (p.stops (ps.map fun q => .linearXY q feed)).map Position.point = ps := by
  induction ps generalizing p with
  | nil => rfl
  | cons q ps ih =>
    rw [List.map_cons, Position.stops, List.map_cons, ih]
    rfl

/-- What a leg that goes round a lap does: it comes to the corners in their order, the start corner
last. -/
theorem legMoves_round (h : l.Proper) (feed z : α) {leg : Leg} {j : Nat} (hj : leg.lap? = some j)
    (p : Position α) :
    (p.stops (r.legMoves l feed z leg)).map Position.point = l.lapCorners j ∧
      (p.afterAll (r.legMoves l feed z leg)).point = l.entry j := by
  obtain ⟨a, b, c, hv⟩ := h.visits_eq
  cases leg with
  | join k => cases hj
  | lap k =>
    obtain rfl : k = j := Option.some.inj hj
    refine ⟨stops_lines feed _ p, ?_⟩
    rw [legMoves, Layout.lapCorners, hv]
    rfl
  | ramp =>
    obtain rfl : 0 = j := Option.some.inj hj
    rw [legMoves, Layout.lapCorners, hv]
    exact ⟨rfl, rfl⟩

end Rectangle

/-- Where a leg should begin. -/
def Layout.legEntry (l : Layout α) : Leg → Point α
  | .ramp => l.entry 0
  | .lap j => l.entry j
  | .join j => l.entry (j - 1)

namespace Rectangle

variable {r : Rectangle α} {tool : Tool α} {l : Layout α}

/-- The way to a lap begins where the lap before has ended, and ends where the lap begins. -/
theorem innerLegs_begin (h : l.Proper) (feed z : α) {p : Position α} (hp : p.point = l.entry 0) :
    EachLeg (r.legMoves l feed z) (fun p leg => p.point = l.legEntry leg) p l.innerLegs := by
  have hall (n : Nat) :
      EachLeg (r.legMoves l feed z) (fun p leg => p.point = l.legEntry leg) p
          ((List.range n).flatMap fun j => [.join (j + 1), .lap (j + 1)]) ∧
        (p.afterAll (((List.range n).flatMap fun j => [Leg.join (j + 1), .lap (j + 1)]).flatMap
          (r.legMoves l feed z))).point = l.entry n := by
    induction n with
    | zero => exact ⟨trivial, hp⟩
    | succ n ih =>
      obtain ⟨hlegs, hend⟩ := ih
      rw [List.range_succ, List.flatMap_append, List.flatMap_singleton, eachLeg_append,
        List.flatMap_append, Position.afterAll_append]
      refine ⟨⟨hlegs, hend, rfl, trivial⟩, ?_⟩
      rw [List.flatMap_cons, List.flatMap_singleton, Position.afterAll_append]
      exact (legMoves_round h feed z rfl _).2
  exact (hall (l.laps - 1)).1

/-- **Every leg of a pass begins where it should**, and all but the first begin there exactly. -/
theorem legs_begin {R : Position α → Point α → Prop} (hR : ∀ {p q}, p.point = q → R p q)
    (h : l.Proper) (feed z : α) (isFirst : Bool) {p : Position α} (hp : R p (l.entry 0)) :
    EachLeg (r.legMoves l feed z) (fun p leg => R p (l.legEntry leg)) p (r.legs l isFirst) := by
  have hramp (p : Position α) : (p.afterAll (r.legMoves l feed z .ramp)).point = l.entry 0 :=
    (legMoves_round h feed z rfl p).2
  have hlap (p : Position α) : (p.afterAll (r.legMoves l feed z (.lap 0))).point = l.entry 0 :=
    (legMoves_round h feed z rfl p).2
  have hinner {p : Position α} (hp : p.point = l.entry 0) :
      EachLeg (r.legMoves l feed z) (fun p leg => R p (l.legEntry leg)) p l.innerLegs :=
    (innerLegs_begin h feed z hp).mono fun _ _ _ hleg => hR hleg
  unfold legs
  rw [eachLeg_append]
  split
  · split
    · refine ⟨⟨hp, hR (hramp p), trivial⟩, hinner ?_⟩
      rw [List.flatMap_cons, List.flatMap_singleton, Position.afterAll_append]
      exact hlap _
    · refine ⟨⟨hp, trivial⟩, hinner ?_⟩
      rw [List.flatMap_singleton]
      exact hramp p
  · refine ⟨⟨hp, trivial⟩, hinner ?_⟩
    rw [List.flatMap_singleton]
    exact hlap p

/-- The laps of a pass are all laps of the layout. -/
theorem mem_laps_iff (h : l.Proper) (isFirst : Bool) (j : Nat) :
    (∃ leg ∈ r.legs l isFirst, leg.lap? = some j) ↔ j < l.laps := by
  have hpos := h.laps_pos
  have hinner : (∃ leg ∈ l.innerLegs, leg.lap? = some j) ↔ 0 < j ∧ j < l.laps := by
    simp only [Layout.innerLegs, List.mem_flatMap, List.mem_range]
    constructor
    · rintro ⟨leg, ⟨i, hi, hleg⟩, hj⟩
      rcases List.mem_pair.mp hleg with rfl | rfl
      · cases hj
      · obtain rfl : i + 1 = j := Option.some.inj hj
        omega
    · rintro ⟨hj, hlt⟩
      refine ⟨.lap j, ⟨j - 1, by omega, ?_⟩, rfl⟩
      rw [Nat.sub_add_cancel hj]
      simp
  unfold legs
  simp only [List.mem_append, or_and_right, exists_or, hinner]
  split
  · split <;> simp [Leg.lap?] <;> omega
  · simp [Leg.lap?]
    omega

/-! ## The whole command -/

theorem passed_at (hr : r.passes.repetitions ≠ 0) (m : Machine α) :
    (r.passed tool l m).position.At (l.entry 0) := by
  obtain ⟨n, hn⟩ := Passes.exists_succ hr
  rw [passed_eq hn]
  exact goBack_at true _ _

/-- A pocket from inside out ends where the command began, any other rectangle at its start
corner. -/
theorem carryOut_at (hr : r.passes.repetitions ≠ 0) (m : Machine α) :
    if r.cut = .pocketInsideOut then (r.carryOut tool l m).position.point = m.position.point
    else (r.carryOut tool l m).position.At (l.entry 0) := by
  rw [carryOut_eq]
  split
  · rfl
  · exact (passed_at hr m).congr (r.lifts_pulledUp tool l m).point_eq

/-- **Every lap is closed and in its place.** Every cut belongs to a pass, and the moves of a pass
are its way down and its legs. Where a leg that goes round a lap begins, the tool is at the start
corner of that lap; it comes to the four corners of the lap in their order, and ends exactly at the
start corner. The legs go round all laps of the layout. In the end the tool is at the start corner
of the first lap, or back where the command began. -/
theorem laps_in_place {m : Machine α} (hl : Layout.ofRectangle r m.position.point tool = .ok l) :
    (r.execute tool m).rejection = none ∧
      ((r.execute tool m).machine.since m).filter Move.cuts =
        (List.range r.passes.repetitions.toNat).flatMap
          (fun k => (r.passMoves tool l m k).filter Move.cuts) ∧
      (∀ k < r.passes.repetitions.toNat,
        r.passMoves tool l m k =
            r.sinkMoves tool l m k ++ (r.legs l (k == 0)).flatMap (r.cutMoves tool l m k) ∧
          EachLeg (r.cutMoves tool l m k)
            (fun p leg => ∀ j, leg.lap? = some j →
              p.At (l.corner (l.inset j) .fourth) ∧
                (p.stops (r.cutMoves tool l m k leg)).map Position.point =
                  (r.anchor.visits r.turn).map (l.corner (l.inset j)) ∧
                (p.afterAll (r.cutMoves tool l m k leg)).point = l.corner (l.inset j) .fourth)
            (r.legStart tool l m k) (r.legs l (k == 0)) ∧
          ∀ j, (∃ leg ∈ r.legs l (k == 0), leg.lap? = some j) ↔ j < l.laps) ∧
      if r.cut = .pocketInsideOut then
        (r.execute tool m).machine.position.point = m.position.point
      else (r.execute tool m).machine.position.At (l.corner (l.inset 0) .fourth) := by
  obtain ⟨hr, hvisits, -⟩ := Layout.of_ofRectangle hl
  have hproper := Layout.Proper.of_ofRectangle hl
  have hdone : r.execute tool m = ⟨r.carryOut tool l m, none⟩ := by
    rw [execute, hl]
  refine ⟨?_, filter_cuts_execute hl, ?_, ?_⟩
  · rw [hdone]
  · intro k _
    have hstart : (r.legStart tool l m k).At (l.entry 0) :=
      (entering_at m k).congr (legStart_point m k)
    have hbegin : EachLeg (r.cutMoves tool l m k) (fun p leg => p.At (l.legEntry leg))
        (r.legStart tool l m k) (r.legs l (k == 0)) :=
      legs_begin Or.inl hproper _ _ _ hstart
    refine ⟨passMoves_eq m k, hbegin.mono ?_, mem_laps_iff hproper (k == 0)⟩
    intro p leg _ hp j hj
    rw [← hvisits]
    refine ⟨?_, legMoves_round hproper _ _ hj p⟩
    cases leg with
    | ramp =>
      obtain rfl : 0 = j := Option.some.inj hj
      exact hp
    | lap i =>
      obtain rfl : i = j := Option.some.inj hj
      exact hp
    | join i => cases hj
  · rw [hdone]
    exact carryOut_at hr m

/-! ### A pocket from inside out, in two passes, the first one along a ramp -/

section

open RealScalar

/-- A pocket of three laps, cut twice, with a ramp. -/
noncomputable def rampedPocket : Rectangle ℝ :=
  { shallowPocket with passes := ⟨-0.1, 2, false, false⟩, rampFirst := true }

theorem rampedPocket_layout :
    ∃ l, Layout.ofRectangle rampedPocket onSurface.position.point .standard = .ok l :=
  shallowPocket_layout

theorem rampedPocket_in_place :
    ∃ l, Layout.ofRectangle rampedPocket onSurface.position.point .standard = .ok l ∧
      (∀ k < 2,
        EachLeg (rampedPocket.cutMoves .standard l onSurface k)
          (fun p leg => ∀ j, leg.lap? = some j →
            p.At (l.corner (l.inset j) .fourth) ∧
              (p.afterAll (rampedPocket.cutMoves .standard l onSurface k leg)).point =
                l.corner (l.inset j) .fourth)
          (rampedPocket.legStart .standard l onSurface k) (rampedPocket.legs l (k == 0))) ∧
      (rampedPocket.execute .standard onSurface).machine.position.point = ⟨0, 0⟩ := by
  obtain ⟨l, hl⟩ := rampedPocket_layout
  obtain ⟨-, -, hpasses, hend⟩ := laps_in_place hl
  refine ⟨l, hl, ?_, hend⟩
  intro k hk
  obtain ⟨-, hlegs, -⟩ := hpasses k hk
  refine hlegs.mono ?_
  intro p leg _ hleg j hj
  obtain ⟨hbegin, -, hdone⟩ := hleg j hj
  exact ⟨hbegin, hdone⟩

end

end Rectangle

end Toolpath
