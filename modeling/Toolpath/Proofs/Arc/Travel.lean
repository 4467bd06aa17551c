import Toolpath.Proofs.Clearance
import Toolpath.Proofs.Arc.Passes
import Toolpath.Proofs.Verdict

/-!
# Rapid travel of arcs and circles

An arc order travels in two places only: back over the start between two passes, or before the
bottom pass, and back over the start of a pocket. Each of them is made at the safe height, to which
the tool has just gone. A circle around a center is approached first, and an approach rises before
it travels. So none of these commands ever travels below the safe height, whatever is cut, how often
and how deep.

* `ArcPlan.clear_goBack`, `ArcPlan.clear_pass`, `ArcPlan.clear_between` — the parts of an order
* `ArcPlan.clear_carryOut` — the whole of it
* `Command.arc_travel_clear` — all commands but the rectangle
-/

namespace Toolpath

open Scalar Machine

variable {α : Type}

theorem Move.travels_of_cuts {d : Move α} (h : d.cuts = true) : d.travels = false := by
  obtain ⟨kind, x, y, z, i, j, feed⟩ := d
  cases kind with
  | rapid => exact nomatch h
  | linear => rfl
  | arcClockwise => rfl
  | arcCounterclockwise => rfl

variable [Scalar α]

/-- Cuts in the plane do not travel. -/
theorem Machine.Leads.clear_of_cuts {m m' : Machine α}
    (h : Leads (fun _ d => d.cuts = true) m m') (safeZ : α) : Leads (ClearOf safeZ) m m' :=
  h.mono fun p _ hd => ClearOf.of_still (Move.travels_of_cuts hd) safeZ p

namespace ArcPlan

variable (p : ArcPlan α)

/-! ## The parts of an order -/

theorem clear_follow (safeZ : α) (a : Arc α) (d : Depth α) (m : Machine α) :
    Leads (ClearOf safeZ) m (p.follow a d m) := (p.follow_leads a d m).clear_of_cuts safeZ

theorem clear_nest (safeZ z : α) (m : Machine α) (rings : List (Offset α)) :
    Leads (ClearOf safeZ) m (p.nest z m rings) :=
  ((p.nest_level z m rings).mono fun _ _ hd => hd.1).clear_of_cuts safeZ

variable [OrderedScalar α] {p} (hs : isFinite p.tool.safeZ = true)

include hs

/-- **The way back over the start is safe:** the tool has gone to the safe height. -/
theorem clear_goBack (m : Machine α) : Leads (ClearOf p.tool.safeZ) m (p.goBack m) := by
  have hup := (lifts_retract m p.tool.safeZ).clear p.tool.safeZ
  exact hup.trans (Leads.emit fun _ => safe_le_retract hs m)

/-- **A pocket is left safely**, as it rises before it goes back. -/
theorem clear_pocket (z : α) (m : Machine α) : Leads (ClearOf p.tool.safeZ) m (p.pocket z m) := by
  have hrings := p.clear_nest p.tool.safeZ z m p.rings
  have hup : Leads (ClearOf p.tool.safeZ) (p.nest z m p.rings)
      ((p.nest z m p.rings).rapidZ p.tool.safeZ) := Leads.emit (ClearOf.of_still rfl _ _)
  exact (hrings.trans hup).trans (Leads.emit fun _ => OrderedScalar.le_refl hs)

theorem clear_pass (z : α) (m : Machine α) : Leads (ClearOf p.tool.safeZ) m (p.pass z m).2 := by
  have hsink := (p.lifts_sink z m).clear p.tool.safeZ
  unfold pass
  cases p.order.cut with
  | profile => exact hsink.trans (p.clear_follow _ _ _ _)
  | pocket => exact hsink.trans (clear_pocket hs _ _)
  | spiral => exact p.clear_follow _ _ _ m
  | spiralWithBottom => exact p.clear_follow _ _ _ m

theorem clear_between (z : α) (m : Machine α) :
    Leads (ClearOf p.tool.safeZ) m (p.between z m) := by
  unfold between
  split
  · exact Leads.refl m
  · split
    · exact (clear_goBack hs m).trans (Leads.emit (ClearOf.of_still rfl _ _))
    · exact clear_goBack hs m

theorem clear_bottom (z : α) (m : Machine α) :
    Leads (ClearOf p.tool.safeZ) m (p.bottom z m) := by
  unfold bottom
  cases p.order.cut with
  | profile => exact Leads.refl m
  | pocket => exact Leads.refl m
  | spiral => exact Leads.refl m
  | spiralWithBottom =>
    refine Leads.trans ?_ (p.clear_follow _ _ _ _)
    split
    · exact Leads.refl m
    · exact (clear_goBack hs m).trans (Leads.emit (ClearOf.of_still rfl _ _))

/-! ## The whole order -/

/-- **A plan is carried out safely:** its passes are, one after the other, and everything else that
it does without cutting is along the Z axis. -/
theorem clear_carryOut (m : Machine α) :
    Leads (ClearOf p.tool.safeZ) (p.noted m) (p.carryOut m) := by
  have hopened : Leads (ClearOf p.tool.safeZ) (p.noted m) (p.opened m).2 :=
    (p.lifts_surface (p.noted m)).clear _
  have hfinished : Leads (ClearOf p.tool.safeZ) (p.noted m) (p.finished m).2 :=
    hopened.trans (p.leads_passes (clear_pass hs) (clear_between hs) _ _ _)
  have hbottom := hfinished.trans (clear_bottom hs (p.finished m).1 (p.finished m).2)
  rw [carryOut_eq]
  exact hbottom.trans ((lifts_pullUp _ p.order.passes.stayDown m.position.z).clear _)

end ArcPlan

/-! ## The commands -/

variable [OrderedScalar α] {tool : Tool α}

theorem ArcOrder.clear_execute (hs : isFinite tool.safeZ = true) (o : ArcOrder α)
    (command : CommandKind) (m : Machine α) :
    Acts (ClearOf tool.safeZ) m (o.execute command tool m).machine := by
  cases hc : o.check tool with
  | error cause =>
    rw [ArcOrder.execute_of_check_error hc]
    exact (Leads.refl m).acts
  | ok u =>
    rw [ArcOrder.execute_of_check hc]
    exact ⟨_, _, ArcPlan.clear_carryOut hs m⟩

theorem ArcOrder.clear_executeMade (hs : isFinite tool.safeZ = true)
    (made : Except (Cause α) (ArcOrder α)) (command : CommandKind) (m : Machine α) :
    Acts (ClearOf tool.safeZ) m (ArcOrder.executeMade command tool made m).machine := by
  cases made with
  | error cause => exact (Leads.refl m).acts
  | ok o => exact o.clear_execute hs command m

/-- A circle around a center is approached safely, and cut safely from there. -/
theorem CenterCircle.clear_execute (hs : isFinite tool.safeZ = true) {m : Machine α}
    (hk : m.keepDepth = false) (hz : isFinite m.position.z = true) (c : CenterCircle α) :
    Acts (ClearOf tool.safeZ) m (c.execute tool m).machine := by
  rcases c.execute_cases tool m with ⟨cause, he⟩ | ⟨entry, o, -, -, he⟩ <;> rw [he]
  · exact (Leads.refl m).acts
  · exact Acts.after_leads (clear_approach hk hz hs entry m.position.z)
      (o.clear_execute hs .centerCircle _)

namespace Command

/-- **Arcs and circles travel at the safe height or above.** Every rapid move in the plane that such
a command emits is made while the tool is there, from wherever the tool starts, unless it is to keep
its depth. -/
theorem arc_travel_clear {c : Command α} (hc : c.kind ≠ .rectangle) {m : Machine α}
    (hk : m.keepDepth = false) (hz : isFinite m.position.z = true)
    (hs : isFinite tool.safeZ = true) :
    Along (ClearOf tool.safeZ) m.position ((c.execute tool m).machine.since m) := by
  apply Acts.along_since
  cases c with
  | chordArc a => exact ArcOrder.clear_executeMade hs _ .chordArc m
  | bearingCircle c => exact ArcOrder.clear_executeMade hs _ .bearingCircle m
  | centerCircle c => exact c.clear_execute hs hk hz
  | arc a => exact ArcOrder.clear_executeMade hs _ .arc m
  | rectangle r => exact absurd rfl hc

/-- Half a circle in two passes, the second of them deeper. -/
def halfCircleDeeper : Command Float :=
  .arc ⟨some 2, none, some 1, some 0, .clockwise, ⟨-1, 2, false, false⟩, ⟨1, 1⟩, .profile⟩

/-- A machine on the surface, below the safe height of the standard tool. -/
def atSurface : Machine Float := .atRest ⟨0, 0, 0⟩ .standard .none

/-- Between these passes the tool goes back over the start, and it is clear of the surface then. -/
theorem halfCircleDeeper_travel_clear :
    halfCircleDeeper.kind ≠ .rectangle ∧ atSurface.keepDepth = false ∧
      isFinite atSurface.position.z = true ∧ isFinite (Tool.standard : Tool Float).safeZ = true ∧
      (halfCircleDeeper.execute .standard atSurface).rejection = none ∧
      ((halfCircleDeeper.execute .standard atSurface).machine.since atSurface).filter Move.travels =
        [.rapidXY ⟨0, 0⟩] ∧
      Along (ClearOf (Tool.standard : Tool Float).safeZ) atSurface.position
        ((halfCircleDeeper.execute .standard atSurface).machine.since atSurface) := by
  have hkind : halfCircleDeeper.kind ≠ .rectangle := by decide
  have hsafe : isFinite (Tool.standard : Tool Float).safeZ = true := rfl
  exact ⟨hkind, rfl, rfl, hsafe, rfl, rfl, arc_travel_clear hkind rfl rfl hsafe⟩

end Command

end Toolpath
