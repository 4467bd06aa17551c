import Toolpath.FloatScalar
import Toolpath.Job
import Toolpath.Proofs.Trail

/-!
# Verdicts

A command is judged before the tool moves. What it is judged by is a function of the command, the
tool and the point where the machine stands (`Command.verdict`), and the outcome follows from it: a
command that is rejected has done nothing at all, and a command that has done anything is accepted.

The circle around a center is the one command that moves, to the start of the circle, before its
order is handed on. The order is checked a second time there, and the second check agrees with the
first.

* `Command.execute_of_error`, `Command.rejection_of_ok` — the two verdicts
* `Command.rejected_iff` — a command is rejected exactly for what its verdict says
* `Command.rejected_leaves_machine` — a rejected command leaves the machine as it was
* `Command.exists_of_accepted` — what an accepted command carries out
-/

namespace Toolpath

theorem exists_of_bind_eq_ok {ε β γ : Type} {x : Except ε β} {f : β → Except ε γ} {c : γ}
    (h : x >>= f = .ok c) : ∃ b, x = .ok b ∧ f b = .ok c := by
  cases x with
  | error e => cases h
  | ok b => exact ⟨b, rfl, h⟩

/-- Two computations that start alike and go on alike but for a map are alike but for the map. -/
theorem bind_eq_map {ε β γ δ : Type} {x : Except ε β} {f : β → Except ε δ} {g : β → Except ε γ}
    {h : γ → δ} (hfg : ∀ b, f b = (g b).map h) : x >>= f = (x >>= g).map h := by
  cases x with
  | error e => rfl
  | ok b => exact hfg b

variable {α : Type}

/-- A shape that is cut at all has a first pass. -/
theorem Passes.exists_succ {p : Passes α} (h : p.repetitions ≠ 0) :
    ∃ n, p.repetitions.toNat = n + 1 :=
  Nat.exists_eq_succ_of_ne_zero fun h0 => h (UInt32.toNat_inj.mp h0)

variable [Scalar α]

namespace ArcOrder

/-- A checked order is carried out, on whatever machine. -/
theorem execute_of_check {o : ArcOrder α} {tool : Tool α} (h : o.check tool = .ok ())
    (command : CommandKind) (m : Machine α) :
    o.execute command tool m = ⟨(ArcPlan.ofOrder o tool m).carryOut m, none⟩ := by
  rw [execute, h]

theorem execute_of_check_error {o : ArcOrder α} {tool : Tool α} {cause : Cause α}
    (h : o.check tool = .error cause) (command : CommandKind) (m : Machine α) :
    o.execute command tool m = ⟨m, some ⟨command, cause⟩⟩ := by
  rw [execute, h]

/-- An accepted order has passed its check. -/
theorem check_of_accepted {o : ArcOrder α} {command : CommandKind} {tool : Tool α} {m : Machine α}
    (h : (o.execute command tool m).rejection = none) : o.check tool = .ok () := by
  cases hc : o.check tool with
  | ok u => rfl
  | error cause =>
    rw [execute_of_check_error hc] at h
    cases h

/-- Carry out an order if it could be made. -/
def executeMade (command : CommandKind) (tool : Tool α) (made : Except (Cause α) (ArcOrder α))
    (m : Machine α) : Outcome α (Rejection α) :=
  match made with
  | .error cause => ⟨m, some ⟨command, cause⟩⟩
  | .ok o => o.execute command tool m

variable {made : Except (Cause α) (ArcOrder α)} {tool : Tool α}

theorem executeMade_of_error {cause : Cause α} (h : made.bind (·.check tool) = .error cause)
    (command : CommandKind) (m : Machine α) :
    executeMade command tool made m = ⟨m, some ⟨command, cause⟩⟩ := by
  cases made with
  | error e => cases h; rfl
  | ok o => exact execute_of_check_error h command m

theorem rejection_executeMade (h : made.bind (·.check tool) = .ok ()) (command : CommandKind)
    (m : Machine α) : (executeMade command tool made m).rejection = none := by
  cases made with
  | error e => cases h
  | ok o =>
    show (o.execute command tool m).rejection = none
    rw [execute_of_check h]

end ArcOrder

namespace CenterCircle

/-- **The circle around a center** either does nothing, or goes over its start and is accepted
there. -/
theorem execute_cases (c : CenterCircle α) (tool : Tool α) (m : Machine α) :
    (∃ cause, c.execute tool m = ⟨m, some ⟨.centerCircle, cause⟩⟩) ∨
      ∃ entry o, c.order m.position.point tool = .ok (entry, o) ∧ o.check tool = .ok () ∧
        c.execute tool m =
          o.execute .centerCircle tool (m.approach tool entry m.position.z) := by
  unfold execute
  cases ho : c.order m.position.point tool with
  | error cause => exact Or.inl ⟨cause, rfl⟩
  | ok eo =>
    obtain ⟨entry, o⟩ := eo
    cases hc : o.check tool with
    | error cause => exact Or.inl ⟨cause, by simp only [hc]⟩
    | ok u => exact Or.inr ⟨entry, o, rfl, hc, by simp only [hc]⟩

end CenterCircle

/-! ## The verdict on a command -/

namespace Command

/-- What a command is judged by: that its order or its layout can be made, and the order's check. -/
def verdict (tool : Tool α) (start : Point α) : Command α → Except (Cause α) Unit
  | .chordArc a => (a.order start tool).bind (·.check tool)
  | .bearingCircle c => (c.order start tool).bind (·.check tool)
  | .centerCircle c => (c.order start tool).bind (·.2.check tool)
  | .arc a => (a.order start).bind (·.check tool)
  | .rectangle r => (Layout.ofRectangle r start tool).map fun _ => ()

variable {c : Command α} {tool : Tool α} {m : Machine α}

/-- **A command that is judged wrong does nothing**, and is rejected under its own name. -/
theorem execute_of_error {cause : Cause α} (h : c.verdict tool m.position.point = .error cause) :
    c.execute tool m = ⟨m, some ⟨c.kind, cause⟩⟩ := by
  cases c with
  | chordArc a => exact ArcOrder.executeMade_of_error h .chordArc m
  | bearingCircle c => exact ArcOrder.executeMade_of_error h .bearingCircle m
  | arc a => exact ArcOrder.executeMade_of_error h .arc m
  | centerCircle c =>
    simp only [verdict] at h
    simp only [execute, CenterCircle.execute]
    cases ho : c.order m.position.point tool with
    | error e => rw [ho] at h; cases h; rfl
    | ok eo =>
      rw [ho] at h
      have hc : eo.2.check tool = .error cause := h
      simp only [hc]
      rfl
  | rectangle r =>
    simp only [verdict] at h
    simp only [execute, Rectangle.execute]
    cases ho : Layout.ofRectangle r m.position.point tool with
    | error e => rw [ho] at h; cases h; rfl
    | ok l => rw [ho] at h; cases h

/-- **A command that is judged right is accepted.** -/
theorem rejection_of_ok (h : c.verdict tool m.position.point = .ok ()) :
    (c.execute tool m).rejection = none := by
  cases c with
  | chordArc a => exact ArcOrder.rejection_executeMade h .chordArc m
  | bearingCircle c => exact ArcOrder.rejection_executeMade h .bearingCircle m
  | arc a => exact ArcOrder.rejection_executeMade h .arc m
  | centerCircle c =>
    simp only [verdict] at h
    simp only [execute, CenterCircle.execute]
    cases ho : c.order m.position.point tool with
    | error e => rw [ho] at h; cases h
    | ok eo =>
      rw [ho] at h
      have hc : eo.2.check tool = .ok () := h
      simp only [hc, ArcOrder.execute_of_check hc]
  | rectangle r =>
    simp only [verdict] at h
    simp only [execute, Rectangle.execute]
    cases ho : Layout.ofRectangle r m.position.point tool with
    | error e => rw [ho] at h; cases h
    | ok l => rfl

/-- A command is rejected exactly for what its verdict says. -/
theorem rejected_iff {r : Rejection α} :
    (c.execute tool m).rejection = some r ↔
      r.command = c.kind ∧ c.verdict tool m.position.point = .error r.cause := by
  cases hv : c.verdict tool m.position.point with
  | error cause =>
    rw [execute_of_error hv]
    obtain ⟨command, cause'⟩ := r
    simp [eq_comm]
  | ok u =>
    rw [rejection_of_ok hv]
    simp

/-- **A rejected command leaves the machine as it was**, queue and all. A circle around a center is
no exception: once it has gone over its start, its order is not rejected any more. -/
theorem rejected_leaves_machine (tool : Tool α) (m : Machine α) :
    (∀ c : Command α, (c.execute tool m).rejection ≠ none → (c.execute tool m).machine = m) ∧
      ∀ c : CenterCircle α,
        (∃ cause, c.execute tool m = ⟨m, some ⟨.centerCircle, cause⟩⟩) ∨
          ∃ entry o, c.order m.position.point tool = .ok (entry, o) ∧
            c.execute tool m =
              o.execute .centerCircle tool (m.approach tool entry m.position.z) ∧
            (c.execute tool m).rejection = none := by
  refine ⟨fun c h => ?_, fun c => ?_⟩
  · cases hv : c.verdict tool m.position.point with
    | error cause => rw [execute_of_error hv]
    | ok u => exact absurd (rejection_of_ok hv) h
  · rcases c.execute_cases tool m with hr | ⟨entry, o, ho, hc, he⟩
    · exact Or.inl hr
    · refine Or.inr ⟨entry, o, ho, he, ?_⟩
      rw [he, ArcOrder.execute_of_check hc]

/-- Half a circle that is not to be cut even once; its numbers are in order otherwise. -/
def neverCut : Command Float :=
  .arc ⟨some 2, none, some 1, some 0, .clockwise, ⟨0, 0, false, false⟩, ⟨1, 1⟩, .profile⟩

/-- A machine that has risen already. -/
def risen : Machine Float := (Machine.atRest ⟨0, 0, 0⟩ .standard .none).rapidZ 1

theorem neverCut_leaves_risen :
    (neverCut.execute .standard risen).rejection ≠ none ∧
      (neverCut.execute .standard risen).machine = risen := by
  have h : (neverCut.execute .standard risen).rejection ≠ none := by
    intro h
    cases h
  exact ⟨h, (rejected_leaves_machine .standard risen).1 neverCut h⟩

/-! ## What an accepted command carries out -/

/-- An order that a command makes, and the machine that it is handed to. -/
inductive HandsOn (tool : Tool α) (m : Machine α) : Command α → ArcOrder α → Machine α → Prop
  | chordArc {a : ChordArc α} {o : ArcOrder α} (h : a.order m.position.point tool = .ok o) :
    HandsOn tool m (.chordArc a) o m
  | bearingCircle {c : BearingCircle α} {o : ArcOrder α}
    (h : c.order m.position.point tool = .ok o) : HandsOn tool m (.bearingCircle c) o m
  /-- The tool goes over the start of the circle first. -/
  | centerCircle {c : CenterCircle α} {entry : Point α} {o : ArcOrder α}
    (h : c.order m.position.point tool = .ok (entry, o)) :
    HandsOn tool m (.centerCircle c) o (m.approach tool entry m.position.z)
  | arc {a : RelativeArc α} {o : ArcOrder α} (h : a.order m.position.point = .ok o) :
    HandsOn tool m (.arc a) o m

/-- **An accepted command carries out a checked order or a layout.** -/
theorem exists_of_accepted (h : (c.execute tool m).rejection = none) :
    (∃ o m', c.HandsOn tool m o m' ∧ o.check tool = .ok () ∧
      c.execute tool m = ⟨(ArcPlan.ofOrder o tool m').carryOut m', none⟩) ∨
    ∃ r l, c = .rectangle r ∧ Layout.ofRectangle r m.position.point tool = .ok l ∧
      c.execute tool m = ⟨r.carryOut tool l m, none⟩ := by
  have hmade {made : Except (Cause α) (ArcOrder α)} (command : CommandKind)
      (h : (ArcOrder.executeMade command tool made m).rejection = none) :
      ∃ o, made = .ok o ∧ o.check tool = .ok () ∧
        ArcOrder.executeMade command tool made m =
          ⟨(ArcPlan.ofOrder o tool m).carryOut m, none⟩ := by
    cases made with
    | error cause => cases h
    | ok o =>
      have hc := ArcOrder.check_of_accepted h
      exact ⟨o, rfl, hc, ArcOrder.execute_of_check hc command m⟩
  cases c with
  | chordArc a =>
    obtain ⟨o, ho, hc, he⟩ := hmade .chordArc h
    exact Or.inl ⟨o, m, .chordArc ho, hc, he⟩
  | bearingCircle c =>
    obtain ⟨o, ho, hc, he⟩ := hmade .bearingCircle h
    exact Or.inl ⟨o, m, .bearingCircle ho, hc, he⟩
  | arc a =>
    obtain ⟨o, ho, hc, he⟩ := hmade .arc h
    exact Or.inl ⟨o, m, .arc ho, hc, he⟩
  | centerCircle c =>
    rcases c.execute_cases tool m with ⟨cause, he⟩ | ⟨entry, o, ho, hc, he⟩
    · exact nomatch (congrArg Outcome.rejection he).symm.trans h
    · exact Or.inl ⟨o, _, .centerCircle ho, hc, he.trans (ArcOrder.execute_of_check hc _ _)⟩
  | rectangle r =>
    have he : (Command.rectangle r).execute tool m = r.execute tool m := rfl
    rw [he, Rectangle.execute] at h
    cases hl : Layout.ofRectangle r m.position.point tool with
    | error cause =>
      rw [hl] at h
      cases h
    | ok l => exact Or.inr ⟨r, l, rfl, hl, by rw [he, Rectangle.execute, hl]⟩

end Command

end Toolpath
