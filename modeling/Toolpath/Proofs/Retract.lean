import Toolpath.Proofs.Arc.Retract
import Toolpath.Proofs.Rectangle.Retract
import Toolpath.Proofs.Tracking

/-!
# Retracts

What a command does, in stages: it may go over its start, go to zero, cut, and pull the tool up in
the end. The rapid moves along the Z axis in the first and in the third stage are its retracts to
the safe height. Those of an approach always go up. Those between the cuts go up if the depths
before them are at the safe height or below, and otherwise one of them goes down.

* `Course` — the stages of a command, and the depths before its ways back
* `Course.Retracts` — what the retracts of a command do
* `Command.retracts_rise_iff` — they do so for every command that is accepted
-/

namespace Toolpath

open Scalar RealScalar Machine

/-- The stages of a command. -/
structure Course where
  /-- Over the start. -/
  approached : Machine ℝ
  /-- At the depth from which the order counts. -/
  opened : Machine ℝ
  /-- All is cut, and the tool has not been pulled up yet. -/
  cutOut : Machine ℝ
  /-- The depths before the ways back in between. -/
  returnDepths : List ℝ

/-- A command goes through its stages on the way from one machine to another, and its retracts go up
but for those from above the safe height. -/
structure Course.Retracts (k : Course) (m m' : Machine ℝ) (safeZ : ℝ) : Prop where
  moves : m'.since m = k.approached.since m ++
    (k.opened.since k.approached ++ (k.cutOut.since k.opened ++ m'.since k.cutOut))
  opening : ∀ d ∈ k.opened.since k.approached, d = .rapidZ 0
  closing : ∀ d ∈ m'.since k.cutOut, d = .rapidZ m.position.z ∨ d = .rapidXY m.position.point
  approach : Along Rises m.position (k.approached.since m)
  returns : Along Rises k.opened.position (k.cutOut.since k.opened) ↔
    ∀ z ∈ k.returnDepths, z ≤ safeZ

theorem Machine.mem_pullUp {m : Machine ℝ} {stayDown : Bool} {z : ℝ} {d : Move ℝ}
    (h : d ∈ (m.pullUp stayDown z).since m) : d = .rapidZ z := by
  have hpull : Leads (fun _ d => d = .rapidZ z) m (m.pullUp stayDown z) := leads_pullUp rfl stayDown
  exact hpull.along_since.forall d h

/-! ## Orders -/

/-- A plan that has noted where it starts keeps track. -/
theorem ArcPlan.tracks_carryOut (p : ArcPlan ℝ) (m : Machine ℝ) : Tracks m (p.carryOut m) := by
  have h := Tracks.of_emits (p.emits_carryOut m)
  exact ⟨h.queue_eq, h.position_eq, h.feeds_eq, h.transforms_eq⟩

namespace ArcOrder

/-- The course of an order, from its start on. -/
noncomputable def course (tool : Tool ℝ) (m : Machine ℝ) (o : ArcOrder ℝ) : Course where
  approached := m
  opened := ((ArcPlan.ofOrder o tool m).opened m).2
  cutOut := (ArcPlan.ofOrder o tool m).cutOut m
  returnDepths := (ArcPlan.ofOrder o tool m).returnDepths m.position.z

variable {tool : Tool ℝ}

/-- The retracts of an order, also when its start has been approached first. -/
theorem course_retracts {o : ArcOrder ℝ} (hc : o.check tool = .ok ()) (command : CommandKind)
    {m₀ m : Machine ℝ} (happroach : Leads Rises m₀ m) (hz : m.position.z = m₀.position.z) :
    (o.course tool m).Retracts m₀ (o.execute command tool m).machine tool.safeZ := by
  let p := ArcPlan.ofOrder o tool m
  have hopen : Leads (fun _ d => d = .rapidZ 0) (p.noted m) (p.opened m).2 :=
    p.leads_surface (congrArg Move.rapidZ real_zero)
  have hcut := p.emits_cutOut m
  have hclose : Lifts (p.cutOut m) (p.carryOut m) := lifts_pullUp _ _ _
  have hrest : (p.carryOut m).since m = (p.opened m).2.since m ++
      ((p.cutOut m).since (p.opened m).2 ++ (p.carryOut m).since (p.cutOut m)) := by
    rw [← hcut.since_trans hclose]
    exact hopen.since_trans (hcut.trans hclose.emits)
  rw [execute_of_check hc]
  refine
    { moves := ?_
      opening := hopen.along_since.forall
      closing := fun d hd => Or.inl ?_
      approach := happroach.along_since
      returns := ArcPlan.rises_cutOut_iff_depths (of_check hc).1 m }
  · exact hrest ▸ (Tracks.of_emits happroach.emits).since_trans (p.tracks_carryOut m)
  · rw [← hz]
    exact mem_pullUp hd

/-- The course of an order that could be made; the other does nothing. -/
noncomputable def courseOf (tool : Tool ℝ) (m : Machine ℝ) : Except (Cause ℝ) (ArcOrder ℝ) → Course
  | .ok o => o.course tool m
  | .error _ => ⟨m, m, m, []⟩

theorem courseOf_retracts {made : Except (Cause ℝ) (ArcOrder ℝ)} {command : CommandKind}
    {m : Machine ℝ} (h : (executeMade command tool made m).rejection = none) :
    (courseOf tool m made).Retracts m (executeMade command tool made m).machine tool.safeZ := by
  cases made with
  | error cause => cases h
  | ok o => exact course_retracts (check_of_accepted h) command (Leads.refl m) rfl

end ArcOrder

/-! ## Rectangles -/

namespace Rectangle

/-- The course of a rectangle. It does not go to zero. -/
noncomputable def course (r : Rectangle ℝ) (tool : Tool ℝ) (l : Layout ℝ) (m : Machine ℝ) :
    Course where
  approached := m.approach tool (l.entry 0) (r.surface m.position.z)
  opened := m.approach tool (l.entry 0) (r.surface m.position.z)
  cutOut := r.passed tool l m
  returnDepths := r.returnDepths l m.position.z

theorem course_retracts (r : Rectangle ℝ) {tool : Tool ℝ} {l : Layout ℝ} (h : l.Proper)
    (m : Machine ℝ) : (r.course tool l m).Retracts m (r.carryOut tool l m) tool.safeZ := by
  have happroach := m.rises_approach tool (l.entry 0) (r.surface m.position.z)
  have hcut := r.emits_passed tool l m
  have hclose : Leads (fun _ d => d = .rapidZ m.position.z ∨ d = .rapidXY m.position.point)
      (r.passed tool l m) (r.carryOut tool l m) := by
    have hup : Leads (fun _ d => d = .rapidZ m.position.z ∨ d = .rapidXY m.position.point)
        (r.passed tool l m) (r.pulledUp tool l m) := leads_pullUp (Or.inl rfl) _
    rw [carryOut_eq]
    split
    · exact hup.trans (Leads.emit (Or.inr rfl))
    · exact hup
  refine
    { moves := ?_
      opening := (Leads.refl _).along_since.forall
      closing := hclose.along_since.forall
      approach := happroach.along_since
      returns := r.rises_passed_iff tool h m }
  have hstay : (r.course tool l m).opened.since (r.course tool l m).approached = [] :=
    since_emitAll _ []
  rw [hstay, List.nil_append, happroach.since_trans (hcut.trans hclose.emits)]
  exact congrArg _ (hcut.since_trans hclose)

end Rectangle

/-! ## Commands -/

namespace Command

/-- The course of a command. -/
noncomputable def course (tool : Tool ℝ) (m : Machine ℝ) : Command ℝ → Course
  | .chordArc a => ArcOrder.courseOf tool m (a.order m.position.point tool)
  | .bearingCircle c => ArcOrder.courseOf tool m (c.order m.position.point tool)
  | .arc a => ArcOrder.courseOf tool m (a.order m.position.point)
  | .centerCircle c =>
    match c.order m.position.point tool with
    | .ok (entry, o) => o.course tool (m.approach tool entry m.position.z)
    | .error _ => ⟨m, m, m, []⟩
  | .rectangle r =>
    match Layout.ofRectangle r m.position.point tool with
    | .ok l => r.course tool l m
    | .error _ => ⟨m, m, m, []⟩

/-- **Retracts.** The moves of an accepted command are those of an approach, whose retract always
goes up; at most one rapid move to zero; those of the cutting, whose retracts go up if and only if
every depth before a way back is at the safe height or below; and those that pull the tool up and
take it home. -/
theorem retracts_rise_iff {c : Command ℝ} {tool : Tool ℝ} {m : Machine ℝ}
    (h : (c.execute tool m).rejection = none) :
    (c.course tool m).Retracts m (c.execute tool m).machine tool.safeZ := by
  cases c with
  | chordArc a => exact ArcOrder.courseOf_retracts h
  | bearingCircle c => exact ArcOrder.courseOf_retracts h
  | arc a => exact ArcOrder.courseOf_retracts h
  | centerCircle c =>
    have h : (c.execute tool m).rejection = none := h
    rcases c.execute_cases tool m with ⟨cause, he⟩ | ⟨entry, o, ho, hc, he⟩
    · rw [he] at h
      cases h
    · have hcourse : (Command.centerCircle c).course tool m =
          o.course tool (m.approach tool entry m.position.z) := by
        rw [course, ho]
      have hdone : (Command.centerCircle c).execute tool m =
          o.execute .centerCircle tool (m.approach tool entry m.position.z) := he
      rw [hcourse, hdone]
      exact ArcOrder.course_retracts hc .centerCircle (m.rises_approach tool entry _)
        (eq_of_alike (m.approach_there_z tool entry))
  | rectangle r =>
    cases hl : Layout.ofRectangle r m.position.point tool with
    | error cause =>
      have h : (r.execute tool m).rejection = none := h
      rw [Rectangle.execute, hl] at h
      cases h
    | ok l =>
      have hcourse : (Command.rectangle r).course tool m = r.course tool l m := by
        rw [course, hl]
      have hdone : ((Command.rectangle r).execute tool m).machine = r.carryOut tool l m := by
        rw [execute, Rectangle.execute, hl]
      rw [hcourse, hdone]
      exact r.course_retracts (Layout.Proper.of_ofRectangle hl) m

/-! ### Half a circle, cut twice above the safe height -/

/-- Half a circle around a center to the right, twice at the same depth. -/
noncomputable def halfCircleTwice : Command ℝ :=
  .arc ⟨some 2, none, some 1, some 0, .clockwise, ⟨0, 2, false, false⟩, ⟨1, 1⟩, .profile⟩

/-- A machine over the origin, at rest above the safe height of the standard tool. -/
noncomputable def highUp : Machine ℝ := .atRest ⟨0, 0, 2⟩ .standard .none

theorem halfCircleTwice_made : RelativeArc.order
    ⟨some 2, none, some 1, some 0, .clockwise, ⟨0, 2, false, false⟩, ⟨1, 1⟩, .profile⟩
      highUp.position.point = .ok ArcOrder.halfCircleTwice := by
  simp [RelativeArc.order, requirePresent, requireFinite, Bind.bind, Except.bind, pure,
    Except.pure, ArcOrder.halfCircleTwice, highUp, Machine.atRest, Position.point]

theorem halfCircleTwice_course :
    halfCircleTwice.course .standard highUp =
      ArcOrder.halfCircleTwice.course .standard highUp := by
  rw [halfCircleTwice, course, halfCircleTwice_made]
  rfl

theorem halfCircleTwice_execute :
    halfCircleTwice.execute .standard highUp =
      ArcOrder.halfCircleTwice.execute .arc .standard highUp := by
  rw [halfCircleTwice, execute, RelativeArc.execute, halfCircleTwice_made]

/-- The one way back between the half circles is from the height where they are cut. -/
theorem halfCircleTwice_returnDepths :
    (ArcOrder.halfCircleTwice.course .standard highUp).returnDepths = [2] := by
  let p := ArcPlan.ofOrder ArcOrder.halfCircleTwice .standard highUp
  have hopen : ¬p.Closed := ArcOrder.halfCirclePlan_open
  have hcount : p.returnCount = 1 := by
    have hreturns : p.Returns := Or.inr hopen
    rw [ArcPlan.returnCount, if_pos hreturns]
    rfl
  have hdepth : p.returnDepth 2 0 = 2 := by
    have hlevel : ¬p.Skipped := fun h => Bool.noConfusion h.1
    rw [ArcPlan.returnDepth, if_neg hlevel, ArcOrder.depthAfter_succ]
    show (2 : ℝ) + (0 : ℕ) * 0 + 0 = 2
    norm_num
  show (List.range p.returnCount).map (p.returnDepth 2) = [2]
  rw [hcount, List.range_one, List.map_singleton, hdepth]

theorem halfCircleTwice_retracts :
    (halfCircleTwice.execute .standard highUp).rejection = none ∧
      (halfCircleTwice.course .standard highUp).Retracts highUp
        (halfCircleTwice.execute .standard highUp).machine (Tool.standard : Tool ℝ).safeZ := by
  have haccepted : (halfCircleTwice.execute .standard highUp).rejection = none := by
    rw [halfCircleTwice_execute, ArcOrder.execute_of_check ArcOrder.halfCircleTwice_check]
  exact ⟨haccepted, retracts_rise_iff haccepted⟩

/-- The retract between them goes down. -/
theorem halfCircleTwice_lowers :
    (halfCircleTwice.execute .standard highUp).rejection = none ∧
      ¬Along Rises (halfCircleTwice.course .standard highUp).opened.position
        ((halfCircleTwice.course .standard highUp).cutOut.since
          (halfCircleTwice.course .standard highUp).opened) := by
  have hretracts := ArcOrder.course_retracts ArcOrder.halfCircleTwice_check .arc
    (Leads.refl highUp) rfl
  rw [halfCircleTwice_execute, halfCircleTwice_course]
  refine ⟨by rw [ArcOrder.execute_of_check ArcOrder.halfCircleTwice_check], fun hrises => ?_⟩
  have hlow := hretracts.returns.mp hrises
  rw [halfCircleTwice_returnDepths] at hlow
  have hsafe : (2 : ℝ) ≤ 0.5 := hlow 2 (List.mem_singleton_self 2)
  norm_num at hsafe

end Command

end Toolpath
