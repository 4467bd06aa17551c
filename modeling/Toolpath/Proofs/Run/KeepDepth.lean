import Toolpath.Proofs.Accepted
import Toolpath.Proofs.Clearance
import Toolpath.Proofs.Tracking

/-!
# Approaches that keep their depth

A circle around a center and a rectangle are approached before they are cut, and an approach rises
to the safe height first unless the machine is to keep its depth. Whether it is to is noted by every
arc that is carried out, and by nothing else: the note says if the arc counted its depth from zero.
So a low approach goes back to the last arc before it, however many rectangles and rejected commands
there are in between.

* `Command.keepDepth_execute` — what an accepted command notes
* `Machine.keepDepth_run` — the note after a run is that of the last accepted arc
* `Machine.approach_low_iff` — when an approach travels below the safe height
* `Machine.low_approach_iff` — the two together, for an approach anywhere in a job
-/

namespace Toolpath

open Scalar Machine

variable {α : Type}

/-! ## What is noted -/

/-- The passes of an arc or a circle; a rectangle has none that are noted. -/
def Command.arcPasses? : Command α → Option (Passes α)
  | .chordArc a => some a.passes
  | .bearingCircle c => some c.passes
  | .centerCircle c => some c.passes
  | .arc a => some a.passes
  | .rectangle _ => none

/-- The passes of the last arc or circle among commands. -/
def lastArcPasses? (cs : List (Command α)) : Option (Passes α) :=
  (cs.filterMap Command.arcPasses?).getLast?

theorem lastArcPasses?_cons (c : Command α) (cs : List (Command α)) :
    lastArcPasses? (c :: cs) = (lastArcPasses? cs).or c.arcPasses? := by
  unfold lastArcPasses?
  rw [List.filterMap_cons]
  cases c.arcPasses? with
  | none => exact Option.or_none.symm
  | some p =>
    simp only [List.getLast?_cons]
    cases (cs.filterMap Command.arcPasses?).getLast? <;> rfl

/-- A note that is taken from passes, or left as it was if there are none. -/
def noteOf (p : Option (Passes α)) (keep : Bool) : Bool := (p.map Passes.fromZero).getD keep

theorem noteOf_or (p q : Option (Passes α)) (keep : Bool) :
    noteOf (p.or q) keep = noteOf p (noteOf q keep) := by
  cases p <;> rfl

theorem noteOf_false_iff {p : Option (Passes α)} :
    noteOf p false = true ↔ ∃ passes, p = some passes ∧ passes.fromZero = true := by
  cases p <;> simp [noteOf]

variable [Scalar α] {tool : Tool α} {m : Machine α}

/-! ### The orders of commands -/

theorem ChordArc.passes_order {a : ChordArc α} {start : Point α} {o : ArcOrder α}
    (h : a.order start tool = .ok o) : o.passes = a.passes := by
  obtain ⟨_, -, h⟩ := exists_of_bind_eq_ok h
  cases h
  rfl

theorem RelativeArc.passes_order {a : RelativeArc α} {start : Point α} {o : ArcOrder α}
    (h : a.order start = .ok o) : o.passes = a.passes := by
  obtain ⟨_, -, h⟩ := exists_of_bind_eq_ok h
  obtain ⟨_, -, h⟩ := exists_of_bind_eq_ok h
  cases h
  rfl

theorem BearingCircle.passes_order {c : BearingCircle α} {start : Point α} {o : ArcOrder α}
    (h : c.order start tool = .ok o) : o.passes = c.passes := by
  obtain ⟨_, -, h⟩ := exists_of_bind_eq_ok h
  obtain ⟨_, -, h⟩ := exists_of_bind_eq_ok h
  cases h
  rfl

theorem CenterCircle.passes_order {c : CenterCircle α} {position entry : Point α} {o : ArcOrder α}
    (h : c.order position tool = .ok (entry, o)) : o.passes = c.passes := by
  obtain ⟨_, -, h⟩ := exists_of_bind_eq_ok h
  obtain ⟨_, -, h⟩ := exists_of_bind_eq_ok h
  obtain ⟨_, -, h⟩ := exists_of_bind_eq_ok h
  obtain ⟨_, -, h⟩ := exists_of_bind_eq_ok h
  cases h
  rfl

/-! ### One command -/

namespace ArcOrder

theorem keepDepth_execute {o : ArcOrder α} (h : o.check tool = .ok ()) (command : CommandKind)
    (m : Machine α) : (o.execute command tool m).machine.keepDepth = o.passes.fromZero := by
  rw [execute_of_check h]
  exact ((ArcPlan.ofOrder o tool m).emits_carryOut m).keepDepth_eq

theorem keepDepth_executeMade {made : Except (Cause α) (ArcOrder α)} {passes : Passes α}
    {command : CommandKind} (hpasses : ∀ {o}, made = .ok o → o.passes = passes)
    (h : (executeMade command tool made m).rejection = none) :
    (executeMade command tool made m).machine.keepDepth = passes.fromZero := by
  cases made with
  | error cause => cases h
  | ok o =>
    rw [← hpasses rfl]
    exact o.keepDepth_execute (check_of_accepted h) command m

end ArcOrder

/-- **An accepted command** notes if its depth is counted from zero, if it is an arc, and nothing
otherwise. -/
theorem Command.keepDepth_execute {c : Command α} (h : (c.execute tool m).rejection = none) :
    (c.execute tool m).machine.keepDepth = noteOf c.arcPasses? m.keepDepth := by
  cases c with
  | chordArc a => exact ArcOrder.keepDepth_executeMade ChordArc.passes_order h
  | bearingCircle c => exact ArcOrder.keepDepth_executeMade BearingCircle.passes_order h
  | arc a => exact ArcOrder.keepDepth_executeMade RelativeArc.passes_order h
  | rectangle r => exact (r.emits_execute tool m).keepDepth_eq
  | centerCircle c =>
    have h : (c.execute tool m).rejection = none := h
    show (c.execute tool m).machine.keepDepth = c.passes.fromZero
    rcases c.execute_cases tool m with ⟨cause, he⟩ | ⟨entry, o, ho, hc, he⟩
    · rw [he] at h
      cases h
    · rw [he, o.keepDepth_execute hc, CenterCircle.passes_order ho]

/-! ### A run -/

theorem Run.keepDepth_commands (tool : Tool α) (stopOnError : Bool) (cs : List (Command α))
    (r : Run α) (index : Nat) :
    (r.commands tool stopOnError index cs).machine.keepDepth =
      noteOf (lastArcPasses? (r.machine.accepted tool stopOnError cs)) r.machine.keepDepth := by
  induction cs generalizing r index with
  | nil => rfl
  | cons c rest ih =>
    cases h : (c.execute tool r.machine).rejection with
    | none =>
      rw [commands_of_accepted h, ih, machine_completing, Command.keepDepth_execute h,
        accepted_of_accepted h, lastArcPasses?_cons, noteOf_or]
    | some e =>
      have hm := Command.machine_of_rejected h
      cases stopOnError with
      | false => rw [commands_of_rejected h, ih, machine_failing, hm, accepted_of_rejected h]
      | true =>
        rw [commands_of_last h, accepted_of_last h, hm]
        rfl

/-- **The note after a run** is that of the last arc that was accepted, or the note from before. -/
theorem Machine.keepDepth_run (m : Machine α) (tool : Tool α) (stopOnError : Bool)
    (cs : List (Command α)) :
    (m.run tool stopOnError cs).machine.keepDepth =
      noteOf (lastArcPasses? (m.accepted tool stopOnError cs)) m.keepDepth :=
  Run.keepDepth_commands tool stopOnError cs ⟨m, .empty⟩ 0

/-! ## Low approaches -/

/-- Does not travel below a height. -/
def NotBelow (safeZ : α) (p : Position α) (d : Move α) : Prop := d.travels = true → ¬p.z < safeZ

instance (safeZ : α) (p : Position α) (d : Move α) : Decidable (NotBelow safeZ p d) :=
  inferInstanceAs (Decidable (d.travels = true → ¬p.z < safeZ))

theorem NotBelow.of_still {d : Move α} (h : d.travels = false) (safeZ : α) (p : Position α) :
    NotBelow safeZ p d := by
  intro htravels
  rw [h] at htravels
  cases htravels

namespace Machine

theorem Lifts.notBelow {m m' : Machine α} (h : Lifts m m') (safeZ : α) :
    Leads (NotBelow safeZ) m m' :=
  h.mono fun p _ hd => NotBelow.of_still (Move.travels_of_isZOnly hd) safeZ p

/-- What an approach does while it travels is all that can be below a height. -/
theorem approach_notBelow (m : Machine α) (tool : Tool α) (entry : Point α) (depth safeZ : α) :
    Along (NotBelow safeZ) m.position ((m.approach tool entry depth).since m) ↔
      (¬m.position.Over entry → ¬(m.raised tool).position.z < safeZ) := by
  rw [approach_eq]
  by_cases hover : m.position.Over entry
  · rw [if_pos hover]
    exact iff_of_true (Leads.refl m).along_since fun h => absurd hover h
  · have hup := m.lifts_raised tool
    have htravel : Emits (m.raised tool) ((m.raised tool).rapidXY entry) := emits_emit _ _
    have hdown := ((m.raised tool).rapidXY entry).lifts_lowered depth
    have hsince : ((m.raised tool).rapidXY entry).since (m.raised tool) = [.rapidXY entry] :=
      since_emitAll (m.raised tool) [.rapidXY entry]
    rw [if_neg hover, (hup.emits.trans htravel).along_since_trans hdown,
      hup.along_since_trans htravel]
    simp only [(hup.notBelow safeZ).along_since, (hdown.notBelow safeZ).along_since, true_and,
      and_true]
    rw [hsince, along_cons]
    exact ⟨fun h _ => h.1 rfl, fun h => ⟨fun _ => h hover, along_nil _⟩⟩

/-- A tool that has not risen by now keeps its depth. -/
theorem raised_low_iff [OrderedScalar α] (m : Machine α) (tool : Tool α) :
    (m.raised tool).position.z < tool.safeZ ↔ m.position.z < tool.safeZ ∧ m.keepDepth = true := by
  unfold raised
  by_cases hrise : m.position.z < tool.safeZ ∧ m.keepDepth = false
  · have hirrefl : ¬tool.safeZ < tool.safeZ := fun h => (OrderedScalar.lt_iff.mp h).2
      (OrderedScalar.lt_iff.mp h).1
    rw [if_pos hrise]
    refine iff_of_false hirrefl fun h => ?_
    rw [hrise.2] at h
    cases h.2
  · rw [if_neg hrise]
    refine ⟨fun h => ⟨h, ?_⟩, And.left⟩
    exact (Bool.not_eq_false _).mp fun hk => hrise ⟨h, hk⟩

/-- **An approach is low** if and only if it has a way to go, starts below the safe height and keeps
its depth. -/
theorem approach_low_iff [OrderedScalar α] (m : Machine α) (tool : Tool α) (entry : Point α)
    (depth : α) :
    ¬Along (NotBelow tool.safeZ) m.position ((m.approach tool entry depth).since m) ↔
      ¬m.position.Over entry ∧ m.position.z < tool.safeZ ∧ m.keepDepth = true := by
  rw [approach_notBelow, raised_low_iff, Classical.not_imp, not_not]

end Machine

/-! ## Approaches in a job -/

/-- Where a command goes before it cuts, and the depth it goes down to there. Circles around a
center and rectangles have such an approach. -/
def Command.approach? (tool : Tool α) (start : Position α) : Command α → Option (Point α × α)
  | .centerCircle c =>
    match c.order start.point tool with
    | .ok (entry, o) => if (o.check tool).isOk then some (entry, start.z) else none
    | .error _ => none
  | .rectangle r =>
    match Layout.ofRectangle r start.point tool with
    | .ok l => some (l.entry 0, r.surface start.z)
    | .error _ => none
  | _ => none

/-- A command that has an approach begins with it. -/
theorem Command.tracks_approach {c : Command α} {entry : Point α} {depth : α}
    (h : c.approach? tool m.position = some (entry, depth)) :
    Tracks m (m.approach tool entry depth) ∧
      Tracks (m.approach tool entry depth) (c.execute tool m).machine := by
  have approached : Emits m (m.approach tool entry depth) :=
    leads_approach trivial trivial fun _ _ => trivial
  refine ⟨Tracks.of_emits approached, ?_⟩
  cases c with
  | chordArc a => cases h
  | bearingCircle c => cases h
  | arc a => cases h
  | centerCircle c =>
    simp only [approach?] at h
    cases ho : c.order m.position.point tool with
    | error cause =>
      rw [ho] at h
      cases h
    | ok eo =>
      obtain ⟨entry', o⟩ := eo
      simp only [ho] at h
      cases hc : o.check tool with
      | error cause =>
        rw [hc] at h
        cases h
      | ok u =>
        rw [hc] at h
        cases h
        have hdone : (Command.centerCircle c).execute tool m =
            o.execute .centerCircle tool (m.approach tool entry m.position.z) := by
          simp only [execute, CenterCircle.execute, ho, hc]
        obtain ⟨path, hroute⟩ :=
          o.exists_route .centerCircle tool (m.approach tool entry m.position.z)
        rw [hdone]
        exact (Tracks.refl _).along hroute _ hroute.last_mem
  | rectangle r =>
    cases hl : Layout.ofRectangle r m.position.point tool with
    | error cause =>
      rw [approach?, hl] at h
      cases h
    | ok l =>
      rw [approach?, hl] at h
      cases h
      have hdone : ((Command.rectangle r).execute tool m).machine = r.carryOut tool l m := by
        rw [execute, Rectangle.execute, hl]
      rw [hdone]
      exact Tracks.of_emits (r.emits_carryOut_of_approach tool l m)

/-- A run that is not stopped goes on with the commands behind. -/
theorem Run.commands_append {tool : Tool α} {stopOnError : Bool} {cs : List (Command α)} {r : Run α}
    (hreach : stopOnError = true → r.machine.accepted tool true cs = cs) (index : Nat)
    (rest : List (Command α)) :
    r.commands tool stopOnError index (cs ++ rest) =
      (r.commands tool stopOnError index cs).commands tool stopOnError (index + cs.length)
        rest := by
  induction cs generalizing r index with
  | nil => rfl
  | cons c cs ih =>
    have hindex : index + 1 + cs.length = index + (c :: cs).length := by
      rw [List.length_cons]
      omega
    rw [List.cons_append, ← hindex]
    cases h : (c.execute tool r.machine).rejection with
    | none =>
      rw [commands_of_accepted h, commands_of_accepted h]
      refine ih (fun hstop => ?_) (index + 1)
      have hall := hreach hstop
      rw [accepted_of_accepted h] at hall
      exact (List.cons.inj hall).2
    | some e =>
      cases stopOnError with
      | false =>
        rw [commands_of_rejected h, commands_of_rejected h]
        exact ih (fun hstop => nomatch hstop) (index + 1)
      | true =>
        have hall := hreach rfl
        rw [accepted_of_last h] at hall
        cases hall

/-- A run keeps track from its first command on. -/
theorem Run.tracks_commands (tool : Tool α) (stopOnError : Bool) (r : Run α) (index : Nat)
    (c : Command α) (rest : List (Command α)) :
    Tracks (c.execute tool r.machine).machine
      (r.commands tool stopOnError index (c :: rest)).machine := by
  obtain ⟨r', hr', hgo | hstop⟩ := r.commands_cons tool stopOnError index c
  · obtain ⟨path, hroute, -⟩ := Run.exists_route tool stopOnError rest r' (index + 1)
    rw [hgo, ← hr']
    exact (Tracks.refl _).along hroute _ hroute.last_mem
  · rw [hstop, ← hr']
    exact Tracks.refl _

/-- **Low approaches.** Wherever in a job a command with an approach stands that the run gets to,
the approach is what the run does next; and it travels below the safe height if and only if it has a
way to go, starts below the safe height, and the last arc accepted before it has counted its depth
from zero. -/
theorem Machine.low_approach_iff [OrderedScalar α] {m : Machine α} (hk : m.keepDepth = false)
    {tool : Tool α} {stopOnError : Bool} {cs : List (Command α)} {c : Command α} {entry : Point α}
    {depth : α} (hreach : stopOnError = true → m.accepted tool true cs = cs)
    (happroach : c.approach? tool (m.run tool stopOnError cs).machine.position =
      some (entry, depth)) (rest : List (Command α)) :
    let m' := (m.run tool stopOnError cs).machine
    let moves := (m'.approach tool entry depth).since m'
    (∃ later, (m.run tool stopOnError (cs ++ c :: rest)).machine.since m' = moves ++ later) ∧
      (¬Along (NotBelow tool.safeZ) m'.position moves ↔
        ¬m'.position.Over entry ∧ m'.position.z < tool.safeZ ∧
          ∃ passes, lastArcPasses? (m.accepted tool stopOnError cs) = some passes ∧
            passes.fromZero = true) := by
  intro m' moves
  obtain ⟨hto, hfrom⟩ := Command.tracks_approach happroach
  constructor
  · have hrun : m.run tool stopOnError (cs ++ c :: rest) =
        (m.run tool stopOnError cs).commands tool stopOnError (0 + cs.length) (c :: rest) :=
      Run.commands_append hreach 0 (c :: rest)
    have hlater := Run.tracks_commands tool stopOnError (m.run tool stopOnError cs)
      (0 + cs.length) c rest
    rw [← hrun] at hlater
    have hwhole := hto.since_trans (hfrom.trans hlater)
    exact ⟨_, hwhole⟩
  · have hnote : m'.keepDepth = noteOf (lastArcPasses? (m.accepted tool stopOnError cs)) false :=
      hk ▸ m.keepDepth_run tool stopOnError cs
    rw [approach_low_iff, hnote, noteOf_false_iff]

/-! ### A square aside from an arc that was counted from zero -/

namespace Machine

/-- Half a circle to the right, a little below zero. -/
def halfCircleFromZero : Command Float :=
  .arc ⟨some 2, none, some 1, some 0, .clockwise, ⟨-0.2, 1, false, true⟩, ⟨1, 1⟩, .profile⟩

/-- A square around a center further to the right. -/
def squareAside : Command Float :=
  .rectangle ⟨some 1, some 1, .on, .clockwise, .center, ⟨-0.2, 1, false, false⟩, .profile, 0, .z,
    false, some 5, some 0⟩

/-- A machine at rest on the surface. -/
def onZero : Machine Float := .atRest ⟨0, 0, 0⟩ .standard .none

/-- The machine after the half circle: pulled up to the surface again. -/
def afterHalfCircle : Machine Float := (onZero.run .standard false [halfCircleFromZero]).machine

theorem squareAside_approach :
    squareAside.approach? .standard afterHalfCircle.position = some (⟨4.5, -0.5⟩, 0) := by
  decide +kernel

/-- The way to the square is made on the surface, for the half circle was counted from zero. -/
theorem squareAside_low_approach_iff :
    onZero.keepDepth = false ∧
      squareAside.approach? .standard afterHalfCircle.position = some (⟨4.5, -0.5⟩, 0) ∧
      (¬Along (NotBelow (Tool.standard : Tool Float).safeZ) afterHalfCircle.position
          ((afterHalfCircle.approach .standard ⟨4.5, -0.5⟩ 0).since afterHalfCircle) ↔
        ¬afterHalfCircle.position.Over ⟨4.5, -0.5⟩ ∧
          afterHalfCircle.position.z < (Tool.standard : Tool Float).safeZ ∧
          ∃ passes,
            lastArcPasses? (onZero.accepted .standard false [halfCircleFromZero]) = some passes ∧
              passes.fromZero = true) := by
  have hreach : false = true →
      onZero.accepted .standard true [halfCircleFromZero] = [halfCircleFromZero] :=
    fun h => nomatch h
  exact ⟨rfl, squareAside_approach, (low_approach_iff rfl hreach squareAside_approach []).2⟩

/-- The half circle has not asked for the tool to stay down, and still the tool does not rise before
it goes to the square. -/
theorem squareAside_low_without_stayDown :
    (onZero.run .standard false [halfCircleFromZero, squareAside]).report.isSuccess = true ∧
      onZero.keepDepth = false ∧
      squareAside.approach? .standard afterHalfCircle.position = some (⟨4.5, -0.5⟩, 0) ∧
      ¬Along (NotBelow (Tool.standard : Tool Float).safeZ) afterHalfCircle.position
        ((afterHalfCircle.approach .standard ⟨4.5, -0.5⟩ 0).since afterHalfCircle) ∧
      ¬∃ passes,
        lastArcPasses? (onZero.accepted .standard false [halfCircleFromZero]) = some passes ∧
          passes.stayDown = true := by
  have hlow : ¬afterHalfCircle.position.Over ⟨4.5, -0.5⟩ ∧
      afterHalfCircle.position.z < (Tool.standard : Tool Float).safeZ ∧
      afterHalfCircle.keepDepth = true := by decide +kernel
  have hlast : lastArcPasses? (onZero.accepted .standard false [halfCircleFromZero]) =
      some ⟨-0.2, 1, false, true⟩ := by decide +kernel
  refine ⟨by decide +kernel, rfl, squareAside_approach,
    (approach_low_iff _ _ _ _).mpr hlow, ?_⟩
  rintro ⟨passes, hpasses, hdown⟩
  rw [hlast] at hpasses
  cases hpasses
  cases hdown

end Machine

end Toolpath
