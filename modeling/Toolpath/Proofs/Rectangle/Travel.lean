import Toolpath.Proofs.Clearance
import Toolpath.Proofs.Rectangle.Place

/-!
# Rapid travel over a rectangle

Cutting a rectangle makes three kinds of rapid moves in the plane. The approach rises first, and so
does the way back to the start corner after a pass. The way home at the end of a pocket from inside
out, to where the tool was before the command, does not: it is made at the height to which the tool
has been pulled up, or where it has stayed.

* `Rectangle.clear_goBack` — the way back rises, as an approach does
* `Rectangle.closingHeight` — the height of the third
* `Rectangle.travel_clear_iff` — a rectangle is cut safely exactly if that height is safe
-/

namespace Toolpath

open Scalar Machine

variable {α : Type} [Scalar α]

theorem ClearOf.of_straight {safeZ : α} {p : Position α} {d : Move α} (h : d.Straight) :
    ClearOf safeZ p d := by
  intro htravels
  rw [Move.travels, h] at htravels
  cases htravels

/-! ## Passes and the way back -/

namespace Rectangle

variable (r : Rectangle α) (tool : Tool α) {l : Layout α}

/-- The depth to which the next pass is counted from a depth. -/
def deeper (z : α) : α := if r.passes.plunge != 0 then z + r.passes.plunge else z

/-- The depth at which a pass from a depth ends. The ramp goes down by the whole plunge as a
fraction. -/
def passEnd (isFirst : Bool) (z : α) : α :=
  if r.passes.plunge != 0 then
    if r.rampFirst && isFirst then z + r.passes.plunge * 1 else z + r.passes.plunge
  else z

/-- The depth at which a number of passes from a depth end. -/
def endDepth : Nat → Bool → α → α
  | 0, _, z => z
  | 1, isFirst, z => r.passEnd isFirst z
  | n + 2, _, z => endDepth (n + 1) false (r.deeper z)

theorem pass_fst (l : Layout α) (isFirst : Bool) (z : α) (m : Machine α) :
    (r.pass l isFirst z m).1 = r.deeper z := by
  unfold deeper
  rcases r.pass_cases l isFirst z m with
    ⟨hp, -, -, h⟩ | ⟨hp, -, -, h⟩ | ⟨hp, -, h⟩ | ⟨hp, h⟩ <;> rw [h]
  · rw [if_pos hp]
  · rw [if_pos hp]
  · rw [if_pos hp]
  · rw [if_neg hp]

/-- A pass ends at its depth. One that does not go down has to start there. -/
theorem pass_z (h : l.Proper) (isFirst : Bool) {z : α} {m : Machine α}
    (hm : ¬(r.passes.plunge != 0) = true → Alike m.position.z z) :
    Alike (r.pass l isFirst z m).2.position.z (r.passEnd isFirst z) := by
  have lap (m : Machine α) : (l.lap 0 m).position.z = m.position.z :=
    ((l.lap_leads 0 m).mono fun _ _ hd => hd.2).z_eq
  have inner (m : Machine α) : (l.innerLaps m).position.z = m.position.z :=
    ((l.innerLaps_leads m).mono fun _ _ hd => hd.2).z_eq
  have ramped := (Layout.rampLap_ends h 0 z r.passes.plunge m).2
  unfold passEnd
  rcases r.pass_cases l isFirst z m with
    ⟨hp, hr, -, he⟩ | ⟨hp, hr, -, he⟩ | ⟨hp, hr, he⟩ | ⟨hp, he⟩ <;> rw [he]
  · rw [if_pos hp, if_pos hr, inner, lap, ramped]
    exact Or.inl rfl
  · rw [if_pos hp, if_pos hr, inner, ramped]
    exact Or.inl rfl
  · rw [if_pos hp, if_neg hr, inner, lap]
    exact Or.inl rfl
  · rw [if_neg hp, inner, lap]
    exact hm hp

theorem goBack_of_over {m : Machine α} (h : m.position.Over (l.entry 0)) (isLast : Bool) (z : α) :
    goBack tool l isLast z m = m := if_pos h

/-- The way back before another pass ends at the depth that is asked for. -/
theorem goBack_next_z {z : α} {m : Machine α} (hm : Alike m.position.z z) :
    Alike (goBack tool l false z m).position.z z := by
  unfold goBack
  split
  · exact hm
  · exact Or.inl rfl

/-- **Where passes end:** at the depth of the last one if that ends over the start corner, and at
the safe height otherwise. -/
theorem repeatPass_z (h : l.Proper) (n : Nat) (isFirst : Bool) {z : α} {m : Machine α}
    (hm : ¬(r.passes.plunge != 0) = true → Alike m.position.z z) :
    Alike (r.repeatPass tool l (n + 1) isFirst z m).position.z
      (if (l.entry (l.laps - 1)).Near (l.entry 0) then r.endDepth (n + 1) isFirst z
        else tool.safeZ) := by
  have hz := r.pass_z h isFirst hm
  have hends := r.pass_ends h isFirst z m
  induction n generalizing isFirst z m with
  | zero =>
    show Alike (goBack tool l true (r.pass l isFirst z m).1
      (r.pass l isFirst z m).2).position.z _
    rw [← hends]
    by_cases hnear : (r.pass l isFirst z m).2.position.point.Near (l.entry 0)
    · rw [if_pos hnear, goBack_of_over tool hnear]
      exact hz
    · have hover : ¬(r.pass l isFirst z m).2.position.Over (l.entry 0) := hnear
      rw [if_neg hnear, goBack, if_neg hover]
      exact Machine.retract_z _ tool.safeZ
  | succ n ih =>
    -- passes that go down forget where they started; the others have to come back to their depth
    have hnext : ¬(r.passes.plunge != 0) = true →
        Alike (goBack tool l false (r.pass l isFirst z m).1
          (r.pass l isFirst z m).2).position.z (r.pass l isFirst z m).1 := by
      intro hp
      apply goBack_next_z
      rw [pass_fst, deeper, if_neg hp]
      rwa [passEnd, if_neg hp] at hz
    show Alike (r.repeatPass tool l (n + 1) false _ _).position.z
      (if _ then r.endDepth (n + 1) false (r.deeper z) else _)
    rw [← r.pass_fst l isFirst z m]
    exact ih false hnext (r.pass_z h false hnext) (r.pass_ends h false _ _)

/-! ## The whole command -/

/-- The height of the way home from a pocket from inside out: where the tool was before, unless it
is to stay down. Then it is the depth of the last pass if that ends over the start corner, and the
safe height if the tool has gone back there. -/
def closingHeight (l : Layout α) (start : α) : α :=
  if r.passes.stayDown then
    if (l.entry (l.laps - 1)).Near (l.entry 0) then
      r.endDepth r.passes.repetitions.toNat true (r.surface start)
    else tool.safeZ
  else start

/-- The tool is pulled up to the closing height. -/
theorem pulledUp_z (h : l.Proper) (hr : r.passes.repetitions ≠ 0) {m : Machine α}
    (hk : m.keepDepth = false) :
    Alike (r.pulledUp tool l m).position.z (r.closingHeight tool l m.position.z) := by
  obtain ⟨n, hn⟩ := Passes.exists_succ hr
  -- a command that does not plunge does not start from zero either, so it cuts where the tool is
  have hstart : ¬(r.passes.plunge != 0) = true →
      Alike (m.approach tool (l.entry 0) (r.surface m.position.z)).position.z
        (r.surface m.position.z) := by
    intro hp
    have hsurface : r.surface m.position.z = m.position.z := by
      rw [surface, if_neg fun h => hp (Bool.and_eq_true_iff.mp h).1]
    rw [hsurface]
    exact approach_z hk tool _
  have hup := Machine.pullUp_z (r.passed tool l m) r.passes.stayDown m.position.z
  unfold closingHeight pulledUp
  cases hs : r.passes.stayDown with
  | false => rwa [hs] at hup
  | true =>
    rw [passed, hn]
    exact r.repeatPass_z tool h n true hstart

/-- The moves of a rectangle: those until the tool is pulled up, and the way home. -/
theorem since_execute {m : Machine α} (hl : Layout.ofRectangle r m.position.point tool = .ok l) :
    (r.execute tool m).machine.since m =
      (r.pulledUp tool l m).since m ++
        if r.cut = .pocketInsideOut then [.rapidXY m.position.point] else [] := by
  have hup := r.emits_pulledUp tool l m
  have hdone : (r.execute tool m).machine = r.carryOut tool l m := by
    rw [execute, hl]
  rw [hdone, carryOut_eq]
  split
  · have hback : Emits (r.pulledUp tool l m)
        ((r.pulledUp tool l m).rapidXY m.position.point) := emits_emit _ _
    rw [hup.since_trans hback]
    congr 1
    exact since_emitAll _ [_]
  · rw [List.append_nil]

variable [OrderedScalar α]

/-- **The way back after a pass is safe.** -/
theorem clear_goBack (hs : isFinite tool.safeZ = true) (l : Layout α) (isLast : Bool) (z : α)
    (m : Machine α) : Leads (ClearOf tool.safeZ) m (goBack tool l isLast z m) :=
  goBack_leads (ClearOf.of_still rfl _ _) (fun _ => safe_le_retract hs m)
    (fun _ _ => ClearOf.of_still rfl _ _) isLast

/-- Until the tool is pulled up, travel is safe. -/
theorem clear_pulledUp (l : Layout α) {m : Machine α} (hk : m.keepDepth = false)
    (hz : isFinite m.position.z = true) (hs : isFinite tool.safeZ = true) :
    Leads (ClearOf tool.safeZ) m (r.pulledUp tool l m) := by
  have approached := clear_approach hk hz hs (l.entry 0) (r.surface m.position.z)
  have cut := approached.trans (r.repeatPass_leads tool l (fun _ _ => ClearOf.of_straight)
    (clear_goBack tool hs l) r.passes.repetitions.toNat true (r.surface m.position.z) _)
  exact cut.trans ((lifts_pullUp _ r.passes.stayDown m.position.z).clear _)

/-- **Safe travel.** Every rapid move in the plane that a rectangle makes is made at the safe height
or above, if and only if the way home from a pocket from inside out is. -/
theorem travel_clear_iff {r : Rectangle α} {tool : Tool α} {m : Machine α} {l : Layout α}
    (hl : Layout.ofRectangle r m.position.point tool = .ok l) (hk : m.keepDepth = false)
    (hz : isFinite m.position.z = true) (hs : isFinite tool.safeZ = true) :
    Along (ClearOf tool.safeZ) m.position ((r.execute tool m).machine.since m) ↔
      (r.cut = .pocketInsideOut → tool.safeZ ≤ r.closingHeight tool l m.position.z) := by
  have hclear := r.clear_pulledUp tool l hk hz hs
  have hheight := r.pulledUp_z tool (Layout.Proper.of_ofRectangle hl)
    (Layout.of_ofRectangle hl).1 hk
  rw [r.since_execute tool hl, along_append, ← hclear.position_eq]
  constructor
  · rintro ⟨-, hlast⟩ hcut
    rw [if_pos hcut] at hlast
    exact hheight.le_iff.mp (hlast.1 rfl)
  · intro h
    refine ⟨hclear.along_since, ?_⟩
    split
    · exact ⟨fun _ => hheight.le_iff.mpr (h ‹_›), trivial⟩
    · trivial

/-! ### A pocket whose surface is below the safe height -/

section

open RealScalar

/-- A pocket from inside out, three laps of the standard tool wide. -/
noncomputable def shallowPocket : Rectangle ℝ where
  lenX := some 2
  lenY := some 1
  side := .on
  turn := .clockwise
  anchor := .corner .fourth
  passes := ⟨-0.1, 1, false, false⟩
  cut := .pocketInsideOut
  rotation := 0
  plungeAxis := .z
  rampFirst := false
  centerX := none
  centerY := none

/-- A machine on the surface, half a unit below the safe height of the standard tool. -/
noncomputable def onSurface : Machine ℝ := .atRest ⟨0, 0, 0⟩ .standard .none

theorem shallowPocket_layout :
    ∃ l, Layout.ofRectangle shallowPocket onSurface.position.point .standard = .ok l := by
  obtain ⟨n, hn⟩ : ∃ n, passCount (Min.min (2 : ℝ) 1 / 2) (Tool.standard : Tool ℝ).stepOver =
      .ok n := by
    rw [stepOver_standard]
    refine exists_passCount (by norm_num) ?_
    rw [maxPasses]
    norm_num
  obtain ⟨l, hl, -⟩ := Layout.exists_ofRectangle_pocket (r := shallowPocket)
    onSurface.position.point rfl rfl (by decide) rfl rfl two_pos one_pos hn
  exact ⟨l, hl⟩

theorem shallowPocket_travel_clear_iff :
    ∃ l, Layout.ofRectangle shallowPocket onSurface.position.point .standard = .ok l ∧
      (Along (ClearOf (Tool.standard : Tool ℝ).safeZ) onSurface.position
          ((shallowPocket.execute .standard onSurface).machine.since onSurface) ↔
        (shallowPocket.cut = .pocketInsideOut →
          (Tool.standard : Tool ℝ).safeZ ≤
            shallowPocket.closingHeight .standard l onSurface.position.z)) := by
  obtain ⟨l, hl⟩ := shallowPocket_layout
  exact ⟨l, hl, travel_clear_iff hl rfl rfl rfl⟩

/-- The way home from this pocket is made on the surface. -/
theorem shallowPocket_not_clear :
    (shallowPocket.execute .standard onSurface).rejection = none ∧
      ¬Along (ClearOf (Tool.standard : Tool ℝ).safeZ) onSurface.position
        ((shallowPocket.execute .standard onSurface).machine.since onSurface) := by
  obtain ⟨l, hl⟩ := shallowPocket_layout
  refine ⟨by rw [execute, hl], fun hclear => ?_⟩
  rw [since_execute _ _ hl, along_append] at hclear
  have hup := emits_pulledUp shallowPocket .standard l onSurface
  have hheight := shallowPocket.pulledUp_z .standard (Layout.Proper.of_ofRectangle hl)
    (Layout.of_ofRectangle hl).1 (m := onSurface) rfl
  have hsafe : (0.5 : ℝ) ≤ 0 := by
    have hlast := hclear.2
    rw [← hup.position_eq] at hlast
    exact hheight.le_iff.mp (hlast.1 rfl)
  norm_num at hsafe

end

end Rectangle

end Toolpath
