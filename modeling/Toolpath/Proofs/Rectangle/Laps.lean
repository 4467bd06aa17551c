import Toolpath.Proofs.Verdict

/-!
# The laps of a rectangle

A lap is a run of straight cuts around the corners of the layout. Without a ramp it stays at its
depth; with one it goes down by fractions of the plunge. Each lap ends at the start corner, as the
fourth corner is the last one to be visited.

* `Layout.Made`, `Layout.ofRectangle_eq_ok_iff` — which layout is made of a rectangle
* `Layout.Proper` — what every layout that is made has
* `Layout.lap_eq`, `Layout.rampLap_eq` — a lap as a run of moves
* `Rectangle.pass_leads`, `Rectangle.pass_ends` — what a pass cuts and where it ends
* `Rectangle.emits_carryOut` — a rectangle does nothing but emit moves
-/

namespace Toolpath

open Scalar

variable {α : Type} [Scalar α]

/-- A straight cut that keeps its depth. -/
def Move.LevelCut (d : Move α) : Prop := d.kind = .linear ∧ d.z = none

/-- A straight cut. -/
def Move.Straight (d : Move α) : Prop := d.kind = .linear

theorem Machine.foldl_lineTo (ps : List (Point α)) (m : Machine α) :
    ps.foldl Machine.lineTo m = m.emitAll (ps.map fun p => .linearXY p m.feeds.xyPerMinute) := by
  induction ps generalizing m with
  | nil => rfl
  | cons p ps ih =>
    rw [List.foldl_cons, ih]
    rfl

/-! ## Layouts -/

namespace Layout

/-- The start corner is visited last, and there is at least one lap. -/
structure Proper (l : Layout α) : Prop where
  visits_eq : ∃ a b c, l.visits = [a, b, c, .fourth]
  laps_pos : 0 < l.laps

omit [Scalar α] in
theorem visits_end (a : Anchor) (t : Turn) : ∃ x y z, a.visits t = [x, y, z, .fourth] := by
  unfold Anchor.visits
  split
  · exact ⟨_, _, _, rfl⟩
  · exact ⟨_, _, _, rfl⟩

theorem lapCount_of_isPocket {cut : RectangleCut} {extent : Offset α} {stepOver : α} {laps : Nat}
    (h : cut.isPocket = true) :
    lapCount cut extent stepOver = .ok laps ↔
      ∃ n, passCount (Scalar.min (abs extent.x) (abs extent.y) / 2) stepOver = .ok n ∧
        n + 1 = laps := by
  rw [lapCount, if_pos h]
  cases passCount (Scalar.min (abs extent.x) (abs extent.y) / 2) stepOver <;> simp [Except.map]

theorem lapCount_pos {cut : RectangleCut} {extent : Offset α} {stepOver : α} {n : Nat}
    (h : lapCount cut extent stepOver = .ok n) : 0 < n := by
  by_cases hcut : cut.isPocket = true
  · obtain ⟨k, -, rfl⟩ := (lapCount_of_isPocket hcut).mp h
    exact Nat.succ_pos k
  · rw [lapCount, if_neg hcut] at h
    cases h
    exact Nat.one_pos

theorem eq_of_requireFinite {parameter : String} {value x : α}
    (h : requireFinite parameter value = .ok x) : x = value := by
  unfold requireFinite at h
  split at h
  · exact (Except.ok.inj h).symm
  · cases h

theorem eq_of_compensated {parameter : String} {growth len width : α}
    (h : compensated parameter growth len = .ok width) : width = len + growth := by
  unfold compensated at h
  dsimp only at h
  split at h
  · cases h
  · exact (Except.ok.inj h).symm

/-- The start corner before rotation, and what the rectangle is turned about: its center if that is
what is placed, and the position otherwise. -/
def seat (r : Rectangle α) (position : Point α) (tool : Tool α) (extent : Offset α) :
    Except (Cause α) (Point α × Point α) :=
  match r.anchor with
  | .center => do
    let x ← requireFinite "center_x" (r.centerX.getD position.x)
    let y ← requireFinite "center_y" (r.centerY.getD position.y)
    pure (⟨x - extent.x / 2, y - extent.y / 2⟩, ⟨x, y⟩)
  | .corner c =>
    let shift := r.side.sign * tool.cutterDiameter / 2
    let signs := (Anchor.corner c).signs
    pure (⟨position.x - shift * signs.1, position.y - shift * signs.2⟩, position)

/-- How a layout is made of a rectangle with these lengths: every check is passed, and every field
comes from the command, the position and the tool. -/
structure Made (r : Rectangle α) (position : Point α) (tool : Tool α) (lenX lenY : α)
    (l : Layout α) : Prop where
  lenX_ok : requirePresent "len_x" r.lenX = .ok lenX
  lenY_ok : requirePresent "len_y" r.lenY = .ok lenY
  rotation_ok : requireFinite "rotation" r.rotation = .ok l.rotation
  plunge_ok : requireFinite "plunge" r.passes.plunge = .ok r.passes.plunge
  repetitions_ne : r.passes.repetitions ≠ 0
  width_ok : compensated "len_x" (r.side.sign * tool.cutterDiameter) lenX =
    .ok (lenX + r.side.sign * tool.cutterDiameter)
  height_ok : compensated "len_y" (r.side.sign * tool.cutterDiameter) lenY =
    .ok (lenY + r.side.sign * tool.cutterDiameter)
  extent_eq : l.extent = ⟨(lenX + r.side.sign * tool.cutterDiameter) * r.anchor.signs.1,
    (lenY + r.side.sign * tool.cutterDiameter) * r.anchor.signs.2⟩
  sense_eq : l.sense = ⟨r.anchor.signs.1, r.anchor.signs.2⟩
  seat_ok : seat r position tool l.extent = .ok (l.base, l.pivot)
  visits_eq : l.visits = r.anchor.visits r.turn
  stepOver_eq : l.stepOver = tool.stepOver
  laps_ok : lapCount r.cut l.extent tool.stepOver = .ok l.laps
  cut_eq : l.cut = r.cut

section

variable {r : Rectangle α} {position : Point α} {tool : Tool α} {l : Layout α}

/-- **Which layout is made of a rectangle**, and whether one is made at all. -/
theorem ofRectangle_eq_ok_iff :
    ofRectangle r position tool = .ok l ↔ ∃ lenX lenY, Made r position tool lenX lenY l := by
  constructor
  · intro h
    unfold ofRectangle at h
    obtain ⟨lenX, hlenX, h⟩ := exists_of_bind_eq_ok h
    obtain ⟨lenY, hlenY, h⟩ := exists_of_bind_eq_ok h
    obtain ⟨rotation, hrotation, h⟩ := exists_of_bind_eq_ok h
    obtain ⟨plunge, hplunge, h⟩ := exists_of_bind_eq_ok h
    obtain rfl := eq_of_requireFinite hplunge
    by_cases hr : r.passes.repetitions = 0
    · rw [if_pos hr] at h
      cases h
    · rw [if_neg hr] at h
      obtain ⟨width, hwidth, h⟩ := exists_of_bind_eq_ok h
      obtain ⟨height, hheight, h⟩ := exists_of_bind_eq_ok h
      obtain rfl := eq_of_compensated hwidth
      obtain rfl := eq_of_compensated hheight
      -- the anchor decides where the place comes from, and the laps are counted behind that
      cases ha : r.anchor with
      | center =>
        rw [ha] at h
        obtain ⟨x, hx, h⟩ := exists_of_bind_eq_ok h
        obtain ⟨y, hy, h⟩ := exists_of_bind_eq_ok h
        obtain ⟨place, hplace, h⟩ := exists_of_bind_eq_ok h
        obtain ⟨laps, hlaps, h⟩ := exists_of_bind_eq_ok h
        cases hplace
        cases h
        refine ⟨lenX, lenY, hlenX, hlenY, hrotation, hplunge, hr, hwidth, hheight,
          by rw [ha]; rfl, by rw [ha]; rfl, ?_, by rw [ha], rfl, hlaps, rfl⟩
        simp only [seat, ha, hx, hy]
        rfl
      | corner c =>
        rw [ha] at h
        obtain ⟨place, hplace, h⟩ := exists_of_bind_eq_ok h
        obtain ⟨laps, hlaps, h⟩ := exists_of_bind_eq_ok h
        cases hplace
        cases h
        refine ⟨lenX, lenY, hlenX, hlenY, hrotation, hplunge, hr, hwidth, hheight,
          by rw [ha]; rfl, by rw [ha]; rfl, ?_, by rw [ha], rfl, hlaps, rfl⟩
        simp only [seat, ha]
        rfl
  · rintro ⟨lenX, lenY, h⟩
    obtain ⟨base, extent, sense, visits, pivot, rotation, stepOver, laps, cut⟩ := l
    obtain ⟨hlenX, hlenY, hrotation, hplunge, hr, hwidth, hheight, rfl, rfl, hseat, rfl, rfl,
      hlaps, rfl⟩ := h
    unfold ofRectangle
    simp only [hlenX, hlenY, hrotation, hplunge, if_neg hr, bind, Except.bind, pure, Except.pure]
    rw [hwidth, hheight]
    cases ha : r.anchor with
    | center =>
      simp only [seat, ha] at hseat hlaps
      obtain ⟨x, hx, hseat⟩ := exists_of_bind_eq_ok hseat
      obtain ⟨y, hy, hseat⟩ := exists_of_bind_eq_ok hseat
      cases hseat
      simp only [hx, hy, hlaps]
    | corner c =>
      simp only [seat, ha] at hseat hlaps
      cases hseat
      simp only [hlaps]

variable (h : ofRectangle r position tool = .ok l)

include h

/-- What a layout that is made owes to its rectangle. -/
theorem of_ofRectangle :
    r.passes.repetitions ≠ 0 ∧ l.visits = r.anchor.visits r.turn ∧
      lapCount r.cut l.extent tool.stepOver = .ok l.laps := by
  obtain ⟨_, _, h⟩ := ofRectangle_eq_ok_iff.mp h
  exact ⟨h.repetitions_ne, h.visits_eq, h.laps_ok⟩

theorem stepOver_of_ofRectangle : l.stepOver = tool.stepOver := by
  obtain ⟨_, _, h⟩ := ofRectangle_eq_ok_iff.mp h
  exact h.stepOver_eq

theorem cut_of_ofRectangle : l.cut = r.cut := by
  obtain ⟨_, _, h⟩ := ofRectangle_eq_ok_iff.mp h
  exact h.cut_eq

theorem Proper.of_ofRectangle : l.Proper := by
  obtain ⟨-, hv, hn⟩ := Layout.of_ofRectangle h
  exact ⟨hv ▸ visits_end _ _, lapCount_pos hn⟩

end

/-! ## Laps -/

/-- A level lap as a run of moves. -/
theorem lap_eq (l : Layout α) (k : Nat) (m : Machine α) :
    l.lap k m =
      m.emitAll ((l.lapCorners k).map fun p => .linearXY p m.feeds.xyPerMinute) :=
  Machine.foldl_lineTo _ m

theorem lap_leads (l : Layout α) (k : Nat) (m : Machine α) :
    Machine.Leads (fun _ d => d.LevelCut) m (l.lap k m) := by
  refine ⟨_, lap_eq l k m, along_of_forall ?_ _⟩
  intro d hd
  obtain ⟨p, -, rfl⟩ := List.mem_map.mp hd
  exact ⟨rfl, rfl⟩

theorem lap_ends {l : Layout α} (h : l.Proper) (k : Nat) (m : Machine α) :
    (l.lap k m).position.point = l.entry k := by
  obtain ⟨a, b, c, hv⟩ := h.visits_eq
  rw [lap_eq, lapCorners, hv]
  rfl

/-- A ramped lap as a run of moves. -/
theorem rampLap_eq (l : Layout α) (k : Nat) (z plunge : α) (m : Machine α) :
    l.rampLap k z plunge m =
      m.emitAll (((l.lapCorners k).zip rampFractions).map fun pf =>
        (Move.linearXY pf.1 m.feeds.xyPerMinute).withZ (z + plunge * pf.2)) := by
  unfold rampLap
  generalize (l.lapCorners k).zip (rampFractions : List α) = pfs
  induction pfs generalizing m with
  | nil => rfl
  | cons pf pfs ih =>
    rw [List.foldl_cons, ih]
    rfl

theorem rampLap_leads (l : Layout α) (k : Nat) (z plunge : α) (m : Machine α) :
    Machine.Leads (fun _ d => d.Straight) m (l.rampLap k z plunge m) := by
  refine ⟨_, rampLap_eq l k z plunge m, along_of_forall ?_ _⟩
  intro d hd
  obtain ⟨pf, -, rfl⟩ := List.mem_map.mp hd
  rfl

/-- A ramped lap ends at the start corner, deeper by the whole plunge. -/
theorem rampLap_ends {l : Layout α} (h : l.Proper) (k : Nat) (z plunge : α) (m : Machine α) :
    (l.rampLap k z plunge m).position.point = l.entry k ∧
      (l.rampLap k z plunge m).position.z = z + plunge * 1 := by
  obtain ⟨a, b, c, hv⟩ := h.visits_eq
  rw [rampLap_eq, lapCorners, hv]
  exact ⟨rfl, rfl⟩

theorem innerLaps_leads (l : Layout α) (m : Machine α) :
    Machine.Leads (fun _ d => d.LevelCut) m (l.innerLaps m) :=
  Machine.Leads.foldl
    (fun m j => (Machine.Leads.emit ⟨rfl, rfl⟩).trans (l.lap_leads (j + 1) (m.lineTo _))) _ m

/-- The laps behind the first one end at the start corner of the last. -/
theorem innerLaps_ends {l : Layout α} (h : l.Proper) {m : Machine α}
    (hm : m.position.point = l.entry 0) :
    (l.innerLaps m).position.point = l.entry (l.laps - 1) := by
  unfold innerLaps
  cases l.laps - 1 with
  | zero => exact hm
  | succ n =>
    rw [List.range_succ, List.foldl_append]
    exact lap_ends h (n + 1) _

end Layout

/-! ## Passes -/

namespace Rectangle

/-- What a pass does: it goes down a ramp, with a level lap after it if no pass follows; or it goes
straight down and around; or it stays at its depth. -/
theorem pass_cases (r : Rectangle α) (l : Layout α) (isFirst : Bool) (z : α) (m : Machine α) :
    (r.passes.plunge != 0) = true ∧ (r.rampFirst && isFirst) = true ∧ r.passes.repetitions = 1 ∧
        r.pass l isFirst z m =
          (z + r.passes.plunge, l.innerLaps (l.lap 0 (l.rampLap 0 z r.passes.plunge m))) ∨
      (r.passes.plunge != 0) = true ∧ (r.rampFirst && isFirst) = true ∧
        r.passes.repetitions ≠ 1 ∧
        r.pass l isFirst z m =
          (z + r.passes.plunge, l.innerLaps (l.rampLap 0 z r.passes.plunge m)) ∨
      (r.passes.plunge != 0) = true ∧ ¬(r.rampFirst && isFirst) = true ∧
        r.pass l isFirst z m =
          (z + r.passes.plunge, l.innerLaps (l.lap 0 (m.plungeTo (z + r.passes.plunge)))) ∨
      ¬(r.passes.plunge != 0) = true ∧ r.pass l isFirst z m = (z, l.innerLaps (l.lap 0 m)) := by
  unfold pass
  by_cases hp : (r.passes.plunge != 0) = true
  · by_cases hr : (r.rampFirst && isFirst) = true
    · by_cases hn : r.passes.repetitions = 1
      · exact Or.inl ⟨hp, hr, hn, by simp only [if_pos hp, if_pos hr, if_pos hn]⟩
      · exact Or.inr (Or.inl ⟨hp, hr, hn, by simp only [if_pos hp, if_pos hr, if_neg hn]⟩)
    · exact Or.inr (Or.inr (Or.inl ⟨hp, hr, by simp only [if_pos hp, if_neg hr]⟩))
  · exact Or.inr (Or.inr (Or.inr ⟨hp, by simp only [if_neg hp]⟩))

/-- A pass is cut along straight lines. -/
theorem pass_leads (r : Rectangle α) (l : Layout α) (isFirst : Bool) (z : α) (m : Machine α) :
    Machine.Leads (fun _ d => d.Straight) m (r.pass l isFirst z m).2 := by
  have lap (k : Nat) (m : Machine α) : Machine.Leads (fun _ d => d.Straight) m (l.lap k m) :=
    (l.lap_leads k m).mono fun _ _ hd => hd.1
  have inner (m : Machine α) : Machine.Leads (fun _ d => d.Straight) m (l.innerLaps m) :=
    (l.innerLaps_leads m).mono fun _ _ hd => hd.1
  have ramped := l.rampLap_leads 0 z r.passes.plunge m
  have plunged : Machine.Leads (fun _ d => d.Straight) m (m.plungeTo (z + r.passes.plunge)) :=
    Machine.Leads.emit rfl
  rcases r.pass_cases l isFirst z m with
    ⟨-, -, -, h⟩ | ⟨-, -, -, h⟩ | ⟨-, -, h⟩ | ⟨-, h⟩ <;> rw [h]
  · exact (ramped.trans (lap 0 _)).trans (inner _)
  · exact ramped.trans (inner _)
  · exact (plunged.trans (lap 0 _)).trans (inner _)
  · exact (lap 0 m).trans (inner _)

/-- A pass ends at the start corner of the last lap. -/
theorem pass_ends (r : Rectangle α) {l : Layout α} (h : l.Proper) (isFirst : Bool) (z : α)
    (m : Machine α) :
    (r.pass l isFirst z m).2.position.point = l.entry (l.laps - 1) := by
  rcases r.pass_cases l isFirst z m with
    ⟨-, -, -, hp⟩ | ⟨-, -, -, hp⟩ | ⟨-, -, hp⟩ | ⟨-, hp⟩ <;> rw [hp]
  · exact Layout.innerLaps_ends h (Layout.lap_ends h 0 _)
  · exact Layout.innerLaps_ends h (Layout.rampLap_ends h 0 z _ m).1
  · exact Layout.innerLaps_ends h (Layout.lap_ends h 0 _)
  · exact Layout.innerLaps_ends h (Layout.lap_ends h 0 m)

/-- The way back rises, travels, and goes down if a pass follows. -/
theorem goBack_leads {P : Position α → Move α → Prop} {tool : Tool α} {l : Layout α} {z : α}
    {m : Machine α} (hup : P m.position (.rapidZ tool.safeZ))
    (hover : P (m.retract tool.safeZ).position (.rapidXY (l.entry 0)))
    (hdown : ∀ p feed, P p (.linearZ z feed)) (isLast : Bool) :
    Machine.Leads P m (goBack tool l isLast z m) := by
  have hback := (Machine.leads_retract hup).trans (Machine.Leads.emit hover)
  unfold goBack
  split
  · exact Machine.Leads.refl m
  · cases isLast with
    | true => exact hback
    | false => exact hback.trans (Machine.Leads.emit (hdown _ _))

/-- A relation that composes holds across all passes if it holds across each of them and each way
back. -/
theorem repeatPass_rel {R : Machine α → Machine α → Prop} [IsPreorder (Machine α) R]
    (r : Rectangle α) (tool : Tool α) (l : Layout α)
    (hpass : ∀ isFirst z m, R m (r.pass l isFirst z m).2)
    (hback : ∀ isLast z m, R m (goBack tool l isLast z m)) (n : Nat) (isFirst : Bool) (z : α)
    (m : Machine α) : R m (r.repeatPass tool l n isFirst z m) := by
  induction n generalizing isFirst z m with
  | zero => exact refl_of R m
  | succ n ih => exact trans_of R (trans_of R (hpass _ _ _) (hback _ _ _)) (ih _ _ _)

/-- Passes lead where straight cuts and the ways back lead. -/
theorem repeatPass_leads {P : Position α → Move α → Prop} (r : Rectangle α) (tool : Tool α)
    (l : Layout α) (hcut : ∀ p d, d.Straight → P p d)
    (hback : ∀ isLast z m, Machine.Leads P m (goBack tool l isLast z m)) (n : Nat)
    (isFirst : Bool) (z : α) (m : Machine α) :
    Machine.Leads P m (r.repeatPass tool l n isFirst z m) :=
  r.repeatPass_rel tool l (fun isFirst z m => (r.pass_leads l isFirst z m).mono hcut) hback n
    isFirst z m

/-! ## The whole command -/

/-- The machine after the passes. -/
def passed (r : Rectangle α) (tool : Tool α) (l : Layout α) (m : Machine α) : Machine α :=
  r.repeatPass tool l r.passes.repetitions.toNat true (r.surface m.position.z)
    (m.approach tool (l.entry 0) (r.surface m.position.z))

/-- The machine after the passes, pulled up. -/
def pulledUp (r : Rectangle α) (tool : Tool α) (l : Layout α) (m : Machine α) : Machine α :=
  (r.passed tool l m).pullUp r.passes.stayDown m.position.z

theorem carryOut_eq (r : Rectangle α) (tool : Tool α) (l : Layout α) (m : Machine α) :
    r.carryOut tool l m =
      if r.cut = .pocketInsideOut then (r.pulledUp tool l m).rapidXY m.position.point
      else r.pulledUp tool l m := by
  unfold carryOut pulledUp passed
  cases r.cut <;> rfl

theorem emits_passed (r : Rectangle α) (tool : Tool α) (l : Layout α) (m : Machine α) :
    Machine.Emits (m.approach tool (l.entry 0) (r.surface m.position.z)) (r.passed tool l m) :=
  r.repeatPass_leads tool l (fun _ _ _ => trivial)
    (fun isLast _ _ => goBack_leads trivial trivial (fun _ _ => trivial) isLast)
    r.passes.repetitions.toNat true (r.surface m.position.z) _

theorem lifts_pulledUp (r : Rectangle α) (tool : Tool α) (l : Layout α) (m : Machine α) :
    Machine.Lifts (r.passed tool l m) (r.pulledUp tool l m) :=
  Machine.lifts_pullUp _ r.passes.stayDown m.position.z

/-- The approach comes first, and then moves are emitted. -/
theorem emits_carryOut_of_approach (r : Rectangle α) (tool : Tool α) (l : Layout α)
    (m : Machine α) :
    Machine.Emits (m.approach tool (l.entry 0) (r.surface m.position.z)) (r.carryOut tool l m) := by
  have cut := (r.emits_passed tool l m).trans (r.lifts_pulledUp tool l m).emits
  rw [carryOut_eq]
  split
  · exact cut.trans (Machine.emits_emit _ _)
  · exact cut

theorem emits_pulledUp (r : Rectangle α) (tool : Tool α) (l : Layout α) (m : Machine α) :
    Machine.Emits m (r.pulledUp tool l m) := by
  have approached : Machine.Emits m (m.approach tool (l.entry 0) (r.surface m.position.z)) :=
    Machine.leads_approach trivial trivial fun _ _ => trivial
  exact (approached.trans (r.emits_passed tool l m)).trans (r.lifts_pulledUp tool l m).emits

/-- **Cutting a rectangle is emitting moves.** -/
theorem emits_carryOut (r : Rectangle α) (tool : Tool α) (l : Layout α) (m : Machine α) :
    Machine.Emits m (r.carryOut tool l m) := by
  rw [carryOut_eq]
  split
  · exact (r.emits_pulledUp tool l m).trans (Machine.emits_emit _ _)
  · exact r.emits_pulledUp tool l m

theorem emits_execute (r : Rectangle α) (tool : Tool α) (m : Machine α) :
    Machine.Emits m (r.execute tool m).machine := by
  unfold execute
  split
  · exact Machine.Leads.refl m
  · exact r.emits_carryOut tool _ m

end Rectangle

end Toolpath
