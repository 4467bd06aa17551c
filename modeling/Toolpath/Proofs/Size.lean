import Toolpath.Proofs.Arc.Chord
import Toolpath.Proofs.Arc.Cuts
import Toolpath.Proofs.Run.KeepDepth
import Toolpath.Proofs.Verdict

/-!
# Shapes without a size

A command is rejected either for its shape as a whole or for one parameter, and of several faults
the first that is looked at counts. In exact arithmetic a command that is cut at all is rejected for
its shape exactly if what its numbers leave of it has no size, or if its order could be made and has
proportions, but its center lies on its start.

A check is made of steps, and each step fails for the shape in its own cases or in none. So the
cases of a check are put together from those of its steps.

* `FailsForShape`, `FailsForShape.bind_iff` — failing for the shape, step by step
* `Circle.NoSize`, `ChordArc.NoSize`, `Rectangle.NoSize` — what has no size
* `ArcOrder.failsForShape_check`, `Command.failsForShape_verdict` — the check of an order and that
  of a command
* `Command.rejected_for_shape_iff` — when a command is rejected for its shape
-/

namespace Toolpath

open Scalar RealScalar

/-! ## Failing for the shape -/

section

variable {α β γ : Type}

/-- A computation fails because the shape as a whole is at fault. -/
def FailsForShape (x : Except (Cause α) β) : Prop :=
  ∃ cause, x = .error cause ∧ cause.isGeometry = true

namespace FailsForShape

@[simp] theorem error_iff {cause : Cause α} :
    FailsForShape (.error cause : Except (Cause α) β) ↔ cause.isGeometry = true := by
  constructor
  · rintro ⟨_, h, hshape⟩
    cases h
    exact hshape
  · intro hshape
    exact ⟨cause, rfl, hshape⟩

@[simp] theorem not_ok {b : β} : ¬FailsForShape (.ok b : Except (Cause α) β) := by
  rintro ⟨_, h, -⟩
  cases h

/-- What is done in two steps fails for the shape if either step does. -/
theorem bind_iff {x : Except (Cause α) β} {f : β → Except (Cause α) γ} :
    FailsForShape (x >>= f) ↔ FailsForShape x ∨ ∃ b, x = .ok b ∧ FailsForShape (f b) := by
  cases x with
  | error cause =>
    show FailsForShape (.error cause) ↔ _
    simp
  | ok b =>
    show FailsForShape (f b) ↔ _
    simp

/-- A step behind which nothing fails for the shape. -/
theorem bind_iff_left {x : Except (Cause α) β} {f : β → Except (Cause α) γ}
    (hf : ∀ b, ¬FailsForShape (f b)) : FailsForShape (x >>= f) ↔ FailsForShape x := by
  rw [bind_iff, or_iff_left]
  rintro ⟨b, -, h⟩
  exact hf b h

end FailsForShape

/-! ### Steps that fail for a parameter only -/

variable [Scalar α]

theorem not_failsForShape_requireFinite {parameter : String} {value : α} :
    ¬FailsForShape (requireFinite parameter value) := by
  unfold requireFinite
  split <;> simp [Cause.isGeometry, Cause.parameter?]

theorem not_failsForShape_requirePresent {parameter : String} {value : Option α} :
    ¬FailsForShape (requirePresent parameter value) := by
  cases value with
  | none => simp [requirePresent, Cause.isGeometry, Cause.parameter?]
  | some v => exact not_failsForShape_requireFinite

theorem not_failsForShape_passCount {span step : α} : ¬FailsForShape (passCount span step) := by
  unfold passCount
  dsimp only
  split_ifs <;> simp [Cause.isGeometry, Cause.parameter?]

theorem Layout.not_failsForShape_lapCount {cut : RectangleCut} {extent : Offset α} {stepOver : α} :
    ¬FailsForShape (lapCount cut extent stepOver) := by
  unfold lapCount
  split
  · refine mt (FailsForShape.bind_iff_left fun _ => ?_).mp not_failsForShape_passCount
    exact FailsForShape.not_ok
  · exact FailsForShape.not_ok

/-- Too many rings are not a fault of the shape. -/
theorem ArcOrder.failsForShape_check_iff_validate {o : ArcOrder α} {tool : Tool α} :
    FailsForShape (o.check tool) ↔ FailsForShape o.validate := by
  unfold check
  refine FailsForShape.bind_iff_left fun _ => ?_
  split <;> simp [FailsForShape.bind_iff, not_failsForShape_passCount]

end

/-! ## What has no size -/

/-- The diameter of a circle, or what compensation leaves of the radius, is not positive. -/
def Circle.NoSize (c : Circle ℝ) (tool : Tool ℝ) : Prop :=
  ∃ diameter, c.diameter = some diameter ∧
    (diameter ≤ 0 ∨ diameter / 2 + c.side.radiusChange tool.cutterDiameter ≤ 0)

/-- An arc has no height over its chord, or compensation leaves no radius. -/
def ChordArc.NoSize (a : ChordArc ℝ) (tool : Tool ℝ) : Prop :=
  ∃ chord height, a.chord = some chord ∧ a.height = some height ∧
    (height = 0 ∨ bareRadius chord height + a.side.radiusChange tool.cutterDiameter ≤ 0)

/-- Compensation does not leave both lengths of a rectangle positive. -/
def Rectangle.NoSize (r : Rectangle ℝ) (tool : Tool ℝ) : Prop :=
  ∃ lenX lenY, r.lenX = some lenX ∧ r.lenY = some lenY ∧
    (lenX + r.side.sign * tool.cutterDiameter ≤ 0 ∨ lenY + r.side.sign * tool.cutterDiameter ≤ 0)

theorem Circle.failsForShape_radius {c : Circle ℝ} {tool : Tool ℝ} :
    FailsForShape (c.radius tool) ↔ c.NoSize tool := by
  unfold radius NoSize
  simp only [FailsForShape.bind_iff, not_failsForShape_requirePresent, false_or,
    requirePresent_real, real_zero]
  refine exists_congr fun diameter => and_congr_right fun _ => ?_
  split_ifs with hdiameter hradius <;> simp [Cause.isGeometry, Cause.parameter?, *]

theorem ChordArc.failsForShape_radius {a : ChordArc ℝ} {tool : Tool ℝ} :
    FailsForShape (a.radius tool) ↔ a.NoSize tool := by
  unfold radius NoSize
  simp only [FailsForShape.bind_iff, not_failsForShape_requirePresent, false_or,
    requirePresent_real, real_zero, exists_and_left]
  refine exists_congr fun chord => and_congr_right fun _ =>
    exists_congr fun height => and_congr_right fun _ => ?_
  have hheight : (|height| == 0) = true ↔ height = 0 := beq_real.trans abs_eq_zero
  show FailsForShape (if (|height| == 0) = true then _
    else if bareRadius chord height + _ ≤ 0 then _ else _) ↔ _
  simp only [hheight]
  split_ifs with hflat hradius <;> simp [Cause.isGeometry, Cause.parameter?, *]

namespace Layout

variable {r : Rectangle ℝ} {position : Point ℝ} {tool : Tool ℝ}

theorem failsForShape_compensated {parameter : String} {growth len : ℝ} :
    FailsForShape (compensated parameter growth len) ↔ len + growth ≤ 0 := by
  unfold compensated
  dsimp only
  rw [real_zero]
  split_ifs with h <;> simp [Cause.isGeometry, Cause.parameter?, h]

/-- **A rectangle has no layout for its shape** exactly if it has no size. -/
theorem failsForShape_ofRectangle (hr : r.passes.repetitions ≠ 0) :
    FailsForShape (ofRectangle r position tool) ↔ r.NoSize tool := by
  unfold ofRectangle
  simp only [requireFinite_real, pure_bind, if_neg hr, FailsForShape.bind_iff,
    not_failsForShape_requirePresent, false_or, requirePresent_real, failsForShape_compensated]
  constructor
  · rintro ⟨lenX, hx, lenY, hy, hwidth | ⟨width, -, hheight | ⟨height, -, hrest⟩⟩⟩
    · exact ⟨lenX, lenY, hx, hy, Or.inl hwidth⟩
    · exact ⟨lenX, lenY, hx, hy, Or.inr hheight⟩
    · -- what is left are the place and the number of laps
      exfalso
      split at hrest <;> exact not_failsForShape_lapCount
        ((FailsForShape.bind_iff_left fun _ => FailsForShape.not_ok).mp hrest)
  · rintro ⟨lenX, lenY, hx, hy, hsmall⟩
    refine ⟨lenX, hx, lenY, hy, ?_⟩
    by_cases hwidth : lenX + r.side.sign * tool.cutterDiameter ≤ 0
    · exact Or.inl hwidth
    · refine Or.inr ⟨_, if_neg ?_, Or.inl (hsmall.resolve_left hwidth)⟩
      rwa [real_zero]

end Layout

/-! ## The check of an order -/

/-- **An order fails for its shape** if it has proportions and its center lies on its start. -/
theorem ArcOrder.failsForShape_check {o : ArcOrder ℝ} (hr : o.passes.repetitions ≠ 0)
    (tool : Tool ℝ) :
    FailsForShape (o.check tool) ↔ (o.scale.x ≠ 0 ∧ o.scale.y ≠ 0) ∧ o.center.Negligible := by
  rw [failsForShape_check_iff_validate, validate_real, if_neg hr]
  split_ifs <;> simp [Cause.isGeometry, Cause.parameter?, *]

/-! ## Orders -/

theorem ChordArc.failsForShape_order {a : ChordArc ℝ} {start : Point ℝ} {tool : Tool ℝ} :
    FailsForShape (a.order start tool) ↔ a.NoSize tool :=
  (FailsForShape.bind_iff_left fun _ => FailsForShape.not_ok).trans failsForShape_radius

theorem BearingCircle.failsForShape_order {c : BearingCircle ℝ} {start : Point ℝ} {tool : Tool ℝ} :
    FailsForShape (c.order start tool) ↔ c.NoSize tool :=
  (FailsForShape.bind_iff_left fun _ => FailsForShape.not_ok).trans Circle.failsForShape_radius

theorem CenterCircle.failsForShape_order {c : CenterCircle ℝ} {position : Point ℝ} {tool : Tool ℝ} :
    FailsForShape (c.order position tool) ↔ c.NoSize tool :=
  (FailsForShape.bind_iff_left fun _ => FailsForShape.not_ok).trans Circle.failsForShape_radius

theorem RelativeArc.not_failsForShape_order {a : RelativeArc ℝ} {start : Point ℝ} :
    ¬FailsForShape (a.order start) := by
  unfold order
  simp [FailsForShape.bind_iff, not_failsForShape_requirePresent, pure, Except.pure]

/-! ## Commands -/

namespace Command

/-- How often and how deep a command cuts. -/
def passes {α : Type} : Command α → Passes α
  | .chordArc a => a.passes
  | .bearingCircle c => c.passes
  | .centerCircle c => c.passes
  | .arc a => a.passes
  | .rectangle r => r.passes

/-- What a command's numbers leave of its shape has no size. An arc to an end point around a center
has whatever size these give it. -/
def NoSize (tool : Tool ℝ) : Command ℝ → Prop
  | .chordArc a => a.NoSize tool
  | .bearingCircle c => c.toCircle.NoSize tool
  | .centerCircle c => c.toCircle.NoSize tool
  | .arc _ => False
  | .rectangle r => r.NoSize tool

variable {c : Command ℝ} {tool : Tool ℝ} {m : Machine ℝ}

/-- An order is cut as often as its command says. -/
theorem HandsOn.passes_eq {o : ArcOrder ℝ} {m' : Machine ℝ} (h : c.HandsOn tool m o m') :
    o.passes = c.passes := by
  cases h with
  | chordArc h => exact ChordArc.passes_order h
  | bearingCircle h => exact BearingCircle.passes_order h
  | centerCircle h => exact CenterCircle.passes_order h
  | arc h => exact RelativeArc.passes_order h

section

variable {o : ArcOrder ℝ}

theorem exists_handsOn_chordArc {a : ChordArc ℝ} :
    (∃ m', (chordArc a).HandsOn tool m o m') ↔ a.order m.position.point tool = .ok o := by
  constructor
  · rintro ⟨_, hands⟩
    cases hands with
    | chordArc h => exact h
  · intro h
    exact ⟨m, .chordArc h⟩

theorem exists_handsOn_bearingCircle {c : BearingCircle ℝ} :
    (∃ m', (bearingCircle c).HandsOn tool m o m') ↔ c.order m.position.point tool = .ok o := by
  constructor
  · rintro ⟨_, hands⟩
    cases hands with
    | bearingCircle h => exact h
  · intro h
    exact ⟨m, .bearingCircle h⟩

/-- The start of the circle comes with its order. -/
theorem exists_handsOn_centerCircle {c : CenterCircle ℝ} :
    (∃ m', (centerCircle c).HandsOn tool m o m') ↔
      (c.order m.position.point tool).map Prod.snd = .ok o := by
  constructor
  · rintro ⟨_, hands⟩
    cases hands with
    | centerCircle h =>
      rw [h]
      rfl
  · intro h
    cases ho : c.order m.position.point tool with
    | error cause =>
      rw [ho] at h
      cases h
    | ok eo =>
      rw [ho] at h
      cases h
      exact ⟨_, .centerCircle ho⟩

theorem exists_handsOn_arc {a : RelativeArc ℝ} :
    (∃ m', (arc a).HandsOn tool m o m') ↔ a.order m.position.point = .ok o := by
  constructor
  · rintro ⟨_, hands⟩
    cases hands with
    | arc h => exact h
  · intro h
    exact ⟨m, .arc h⟩

end

/-- Making an order and checking it fails for the shape where either does. -/
theorem failsForShape_made (hr : c.passes.repetitions ≠ 0)
    {made : Except (Cause ℝ) (ArcOrder ℝ)}
    (hmade : ∀ o, (∃ m', c.HandsOn tool m o m') ↔ made = .ok o) :
    FailsForShape (made.bind (·.check tool)) ↔ FailsForShape made ∨
      ∃ o m', c.HandsOn tool m o m' ∧ (o.scale.x ≠ 0 ∧ o.scale.y ≠ 0) ∧ o.center.Negligible := by
  refine FailsForShape.bind_iff.trans (or_congr_right (exists_congr fun o => ?_))
  rw [← hmade, ← exists_and_right]
  refine exists_congr fun m' => and_congr_right fun hands => ?_
  refine ArcOrder.failsForShape_check ?_ tool
  rwa [hands.passes_eq]

/-- **The verdict on a command** fails for the shape in the cases of its order or its layout, and
in that of the order's check. -/
theorem failsForShape_verdict (hr : c.passes.repetitions ≠ 0) :
    FailsForShape (c.verdict tool m.position.point) ↔ c.NoSize tool ∨
      ∃ o m', c.HandsOn tool m o m' ∧ (o.scale.x ≠ 0 ∧ o.scale.y ≠ 0) ∧ o.center.Negligible := by
  cases c with
  | chordArc a =>
    exact (failsForShape_made hr fun _ => exists_handsOn_chordArc).trans
      (or_congr_left ChordArc.failsForShape_order)
  | bearingCircle c =>
    exact (failsForShape_made hr fun _ => exists_handsOn_bearingCircle).trans
      (or_congr_left BearingCircle.failsForShape_order)
  | arc a =>
    exact (failsForShape_made hr fun _ => exists_handsOn_arc).trans
      (or_congr_left (iff_false_intro RelativeArc.not_failsForShape_order))
  | centerCircle c =>
    have horder : FailsForShape ((c.order m.position.point tool).map Prod.snd) ↔ c.NoSize tool :=
      (FailsForShape.bind_iff_left fun _ => FailsForShape.not_ok).trans
        CenterCircle.failsForShape_order
    -- the start of the circle takes no part in the check
    have hverdict : (centerCircle c).verdict tool m.position.point =
        ((c.order m.position.point tool).map Prod.snd).bind (·.check tool) := by
      show (c.order m.position.point tool).bind _ = _
      cases c.order m.position.point tool <;> rfl
    rw [hverdict]
    exact (failsForShape_made hr fun _ => exists_handsOn_centerCircle).trans (or_congr_left horder)
  | rectangle r =>
    have hno : ¬∃ o m', (rectangle r).HandsOn tool m o m' ∧ (o.scale.x ≠ 0 ∧ o.scale.y ≠ 0) ∧
        o.center.Negligible := by
      rintro ⟨_, _, h, -⟩
      cases h
    rw [or_iff_left hno]
    exact (FailsForShape.bind_iff_left fun _ => FailsForShape.not_ok).trans
      (Layout.failsForShape_ofRectangle hr)

/-- **When a command is rejected for its shape.** One that is cut at all is so exactly if what its
numbers leave of it has no size, or if its order has proportions and a center on its start. -/
theorem rejected_for_shape_iff (hr : c.passes.repetitions ≠ 0) :
    (∃ r, (c.execute tool m).rejection = some r ∧ r.cause.isGeometry = true) ↔
      c.NoSize tool ∨ ∃ o m', c.HandsOn tool m o m' ∧ (o.scale.x ≠ 0 ∧ o.scale.y ≠ 0) ∧
        |o.center.x| ≤ 1e-6 ∧ |o.center.y| ≤ 1e-6 := by
  refine Iff.trans ?_ (failsForShape_verdict hr)
  constructor
  · rintro ⟨r, hrejected, hshape⟩
    exact ⟨r.cause, (rejected_iff.mp hrejected).2, hshape⟩
  · rintro ⟨cause, hverdict, hshape⟩
    exact ⟨⟨c.kind, cause⟩, rejected_iff.mpr ⟨rfl, hverdict⟩, hshape⟩

/-- A circle as wide as the cutter, to be cut on its inside. -/
noncomputable def cutterWide : Command ℝ :=
  .bearingCircle ⟨some 0.25, .inside, .clockwise, 0, 0, .single, ⟨1, 1⟩, .profile⟩

theorem cutterWide_rejected : cutterWide.passes.repetitions ≠ 0 ∧
    ∃ r, (cutterWide.execute .standard (.atRest ⟨0, 0, 0⟩ .standard .none)).rejection = some r ∧
      r.cause.isGeometry = true := by
  have hr : cutterWide.passes.repetitions ≠ 0 := by decide
  have hsize : cutterWide.NoSize .standard := by
    refine ⟨0.25, rfl, Or.inr ?_⟩
    show (0.25 : ℝ) / 2 + Side.inside.radiusChange (Tool.standard : Tool ℝ).cutterDiameter ≤ 0
    simp only [Side.radiusChange, Side.sign, Tool.standard, real_one]
    norm_num
  exact ⟨hr, (rejected_for_shape_iff hr).mpr (Or.inl hsize)⟩

end Command

end Toolpath
