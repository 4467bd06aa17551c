import Toolpath.Proofs.Arc.Passes
import Toolpath.Proofs.Rectangle.Laps
import Toolpath.Proofs.Tracking

/-!
# Feeds

Every move is fed as its kind asks: a rapid move has no feed, a move along the Z axis alone has the
Z speed, and every other one the XY speed. The speeds are those of the machine, and no command
changes them.

* `Feeds.of` — the feed that a move is to have
* `Machine.Fed` — whatever has been queued since has it; this composes
* `Machine.run_fed` — it holds across every run
-/

namespace Toolpath

open Scalar

variable {α : Type} [Scalar α]

/-- The feed that a move is to have. -/
def Feeds.of (f : Feeds α) (d : Move α) : Option α :=
  if d.kind = .rapid then none else some (if d.isZOnly then f.zPerMinute else f.xyPerMinute)

/-- A move has its feed. -/
def Move.FedBy (f : Feeds α) (d : Move α) : Prop := d.feed = f.of d

/-! ## Machines -/

namespace Machine

/-- What has been queued since is fed at the speeds of the machine, and these are as before. -/
structure Fed (m m' : Machine α) : Prop where
  tracks : Tracks m m'
  fedBy : ∀ d ∈ m'.since m, d.FedBy m.feeds

namespace Fed

variable {m m' m'' : Machine α}

theorem of_leads (h : Leads (fun _ d => d.FedBy m.feeds) m m') : Fed m m' :=
  ⟨Tracks.of_emits h.emits, h.along_since.forall⟩

theorem refl (m : Machine α) : Fed m m := of_leads (Leads.refl m)

theorem trans (h : Fed m m') (h' : Fed m' m'') : Fed m m'' := by
  refine ⟨h.tracks.trans h'.tracks, fun d hd => ?_⟩
  rw [h.tracks.since_trans h'.tracks] at hd
  rcases List.mem_append.mp hd with hd | hd
  · exact h.fedBy d hd
  · rw [← h.tracks.feeds_eq]
    exact h'.fedBy d hd

instance : IsPreorder (Machine α) Fed where
  refl := refl
  trans _ _ _ := trans

theorem emit {d : Move α} (h : d.FedBy m.feeds) : Fed m (m.emit d) := of_leads (Leads.emit h)

theorem emitAll {ds : List (Move α)} (h : ∀ d ∈ ds, d.FedBy m.feeds) : Fed m (m.emitAll ds) :=
  of_leads ⟨ds, rfl, along_of_forall h _⟩

end Fed

variable (m : Machine α)

theorem fed_rapidZ (z : α) : Fed m (m.rapidZ z) := Fed.emit rfl

theorem fed_rapidXY (q : Point α) : Fed m (m.rapidXY q) := Fed.emit rfl

theorem fed_plungeTo (z : α) : Fed m (m.plungeTo z) := Fed.emit rfl

theorem fed_lineTo (q : Point α) : Fed m (m.lineTo q) := Fed.emit rfl

theorem fed_back (safeZ : α) (q : Point α) : Fed m ((m.retract safeZ).rapidXY q) :=
  (Fed.of_leads (leads_retract rfl)).trans (fed_rapidXY _ q)

theorem fed_pullUp (stayDown : Bool) (z : α) : Fed m (m.pullUp stayDown z) :=
  Fed.of_leads (leads_pullUp rfl stayDown)

theorem fed_approach (tool : Tool α) (entry : Point α) (depth : α) :
    Fed m (m.approach tool entry depth) := by
  have hraised : Fed m (m.raised tool) := Fed.of_leads (leads_raised rfl)
  rw [approach_eq]
  split
  · exact Fed.refl m
  · exact (hraised.trans (fed_rapidXY _ entry)).trans (Fed.of_leads (leads_lowered rfl))

end Machine

open Machine

/-! ## Arcs -/

namespace ArcPlan

variable (p : ArcPlan α)

theorem fedBy_circularMove (f : Feeds α) (a : Arc α) (d : Depth α) :
    (p.circularMove a d f.xyPerMinute).FedBy f := by
  unfold circularMove
  cases p.clockwise <;> cases d.ramps <;> rfl

/-- An arc is cut at the XY speed, whichever way it is cut. -/
theorem fed_follow (a : Arc α) (d : Depth α) (m : Machine α) : Fed m (p.follow a d m) := by
  rw [follow_eq]
  refine Fed.emitAll fun e he => ?_
  rcases p.mem_followMoves he with rfl | ⟨q, angle, rfl⟩
  · exact p.fedBy_circularMove m.feeds a d
  · rfl

theorem fed_nest (z : α) (m : Machine α) (rings : List (Offset α)) : Fed m (p.nest z m rings) := by
  cases rings with
  | nil => exact Fed.refl m
  | cons v rest =>
    have hnext (m : Machine α) (w : Offset α) :
        Fed m (p.ring z (m.lineTo (p.stretch.point (p.ringStart w))) w) :=
      (m.fed_lineTo _).trans (p.fed_follow _ _ _)
    exact (p.fed_follow _ _ m).trans (rel_foldl hnext rest _)

theorem fed_pocket (z : α) (m : Machine α) : Fed m (p.pocket z m) :=
  ((p.fed_nest z m p.rings).trans (fed_rapidZ _ _)).trans (fed_rapidXY _ _)

theorem fed_sink (z : α) (m : Machine α) : Fed m (p.sink z m).2 := Fed.of_leads (p.leads_sink rfl)

theorem fed_pass (z : α) (m : Machine α) : Fed m (p.pass z m).2 := by
  unfold pass
  cases p.order.cut with
  | profile => exact (p.fed_sink z m).trans (p.fed_follow _ _ _)
  | pocket => exact (p.fed_sink z m).trans (p.fed_pocket _ _)
  | spiral => exact p.fed_follow _ _ m
  | spiralWithBottom => exact p.fed_follow _ _ m

theorem fed_between (z : α) (m : Machine α) : Fed m (p.between z m) := by
  unfold between
  split
  · exact Fed.refl m
  · split
    · exact (m.fed_back _ _).trans (fed_plungeTo _ _)
    · exact m.fed_back _ _

theorem fed_bottom (z : α) (m : Machine α) : Fed m (p.bottom z m) := by
  unfold bottom
  cases p.order.cut with
  | profile => exact Fed.refl m
  | pocket => exact Fed.refl m
  | spiral => exact Fed.refl m
  | spiralWithBottom =>
    refine Fed.trans ?_ (p.fed_follow _ _ _)
    split
    · exact Fed.refl m
    · exact (m.fed_back _ _).trans (fed_plungeTo _ _)

theorem fed_carryOut (m : Machine α) : Fed m (p.carryOut m) := by
  have hnoted : Fed m (p.noted m) :=
    ⟨(Tracks.refl m).step (Step.note m m.position p.order.passes.fromZero), (Fed.refl m).fedBy⟩
  have hopened : Fed (p.noted m) (p.opened m).2 := Fed.of_leads (p.leads_surface rfl)
  have hfinished : Fed (p.opened m).2 (p.finished m).2 :=
    p.rel_passes p.fed_pass p.fed_between _ _ _
  have hbottom := p.fed_bottom (p.finished m).1 (p.finished m).2
  rw [carryOut_eq]
  exact (((hnoted.trans hopened).trans hfinished).trans hbottom).trans (fed_pullUp _ _ _)

end ArcPlan

/-! ## Rectangles -/

namespace Layout

variable (l : Layout α)

theorem fed_lap (k : Nat) (m : Machine α) : Fed m (l.lap k m) := by
  rw [lap_eq]
  refine Fed.emitAll fun d hd => ?_
  obtain ⟨p, -, rfl⟩ := List.mem_map.mp hd
  rfl

theorem fed_rampLap (k : Nat) (z plunge : α) (m : Machine α) :
    Fed m (l.rampLap k z plunge m) := by
  rw [rampLap_eq]
  refine Fed.emitAll fun d hd => ?_
  obtain ⟨pf, -, rfl⟩ := List.mem_map.mp hd
  rfl

theorem fed_innerLaps (m : Machine α) : Fed m (l.innerLaps m) :=
  rel_foldl (fun m _ => (m.fed_lineTo _).trans (l.fed_lap _ _)) _ m

end Layout

namespace Rectangle

variable (r : Rectangle α) (tool : Tool α) (l : Layout α)

theorem fed_pass (isFirst : Bool) (z : α) (m : Machine α) :
    Fed m (r.pass l isFirst z m).2 := by
  have hramped := l.fed_rampLap 0 z r.passes.plunge m
  rcases r.pass_cases l isFirst z m with
    ⟨-, -, -, h⟩ | ⟨-, -, -, h⟩ | ⟨-, -, h⟩ | ⟨-, h⟩ <;> rw [h]
  · exact (hramped.trans (l.fed_lap 0 _)).trans (l.fed_innerLaps _)
  · exact hramped.trans (l.fed_innerLaps _)
  · exact ((m.fed_plungeTo _).trans (l.fed_lap 0 _)).trans (l.fed_innerLaps _)
  · exact (l.fed_lap 0 m).trans (l.fed_innerLaps _)

theorem fed_goBack (isLast : Bool) (z : α) (m : Machine α) :
    Fed m (goBack tool l isLast z m) := by
  unfold goBack
  split
  · exact Fed.refl m
  · cases isLast with
    | true => exact m.fed_back _ _
    | false => exact (m.fed_back _ _).trans (fed_plungeTo _ _)

theorem fed_carryOut (m : Machine α) : Fed m (r.carryOut tool l m) := by
  have hpassed : Fed m (r.passed tool l m) := (m.fed_approach tool _ _).trans
    (r.repeatPass_rel tool l (r.fed_pass l) (fed_goBack tool l) _ _ _ _)
  have hup : Fed m (r.pulledUp tool l m) := hpassed.trans (fed_pullUp _ _ _)
  rw [carryOut_eq]
  split
  · exact hup.trans (fed_rapidXY _ _)
  · exact hup

end Rectangle

/-! ## Commands and runs -/

theorem ArcOrder.fed_execute (o : ArcOrder α) (command : CommandKind) (tool : Tool α)
    (m : Machine α) : Fed m (o.execute command tool m).machine := by
  unfold execute
  split
  · exact Fed.refl m
  · exact (ArcPlan.ofOrder o tool m).fed_carryOut m

theorem ArcOrder.fed_executeMade (made : Except (Cause α) (ArcOrder α)) (command : CommandKind)
    (tool : Tool α) (m : Machine α) : Fed m (executeMade command tool made m).machine := by
  cases made with
  | error cause => exact Fed.refl m
  | ok o => exact o.fed_execute command tool m

theorem CenterCircle.fed_execute (c : CenterCircle α) (tool : Tool α) (m : Machine α) :
    Fed m (c.execute tool m).machine := by
  rcases c.execute_cases tool m with ⟨cause, he⟩ | ⟨entry, o, -, -, he⟩ <;> rw [he]
  · exact Fed.refl m
  · exact (m.fed_approach tool entry _).trans (o.fed_execute .centerCircle tool _)

theorem Rectangle.fed_execute (r : Rectangle α) (tool : Tool α) (m : Machine α) :
    Fed m (r.execute tool m).machine := by
  unfold execute
  split
  · exact Fed.refl m
  · exact r.fed_carryOut tool _ m

/-- **Every command is fed.** -/
theorem Command.fed_execute (c : Command α) (tool : Tool α) (m : Machine α) :
    Fed m (c.execute tool m).machine := by
  cases c with
  | chordArc a => exact ArcOrder.fed_executeMade _ .chordArc tool m
  | bearingCircle c => exact ArcOrder.fed_executeMade _ .bearingCircle tool m
  | arc a => exact ArcOrder.fed_executeMade _ .arc tool m
  | centerCircle c => exact c.fed_execute tool m
  | rectangle r => exact r.fed_execute tool m

theorem Run.fed_commands (tool : Tool α) (stopOnError : Bool) (cs : List (Command α)) (r : Run α)
    (index : Nat) : Fed r.machine (r.commands tool stopOnError index cs).machine := by
  induction cs generalizing r index with
  | nil => exact Fed.refl r.machine
  | cons c rest ih =>
    have hfirst := c.fed_execute tool r.machine
    obtain ⟨r', hr', hgo | hstop⟩ := r.commands_cons tool stopOnError index c
    · rw [← hr'] at hfirst
      rw [hgo]
      exact hfirst.trans (ih r' (index + 1))
    · rw [hstop, hr']
      exact hfirst

/-- **Whatever a run queues is fed** at the speeds of the machine, as its kind asks. -/
theorem Machine.run_fed (m : Machine α) (tool : Tool α) (stopOnError : Bool)
    (cs : List (Command α)) : Fed m (m.run tool stopOnError cs).machine :=
  Run.fed_commands tool stopOnError cs ⟨m, .empty⟩ 0

/-- All moves of a job are fed at its speeds. -/
theorem Job.fedBy_run (job : Job α) (tool : Tool α) (feeds : Feeds α) (stopOnError : Bool) :
    ∀ d ∈ (job.run tool feeds stopOnError).machine.queue.toList, d.FedBy feeds :=
  (Machine.run_fed (.atRest job.start feeds job.transforms) tool stopOnError job.commands).fedBy

end Toolpath
