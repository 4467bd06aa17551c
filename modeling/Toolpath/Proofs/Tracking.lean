import Toolpath.Proofs.Arc.Passes
import Toolpath.Proofs.Rectangle.Laps
import Toolpath.Proofs.Verdict

/-!
# Tracking

The position of a machine is where its queue leads. A machine changes in steps of two kinds: it
emits a move, or it notes where an arc starts. Whatever a job does to it is a route of such steps,
and the machine keeps track along every route.

* `Machine.Step`, `Machine.Route` — the steps, and the states that a machine goes through
* `Machine.Tracks` — the position is that of the queue; kept by a step, and so along a route
* `Machine.run_tracks` — a run of any commands goes along a route
-/

namespace Toolpath

variable {α : Type}

namespace Machine

/-! ## Steps and routes -/

/-- One step of a machine. -/
inductive Step : Machine α → Machine α → Prop where
  | emit (m : Machine α) (d : Move α) : Step m (m.emit d)
  | note (m : Machine α) (start : Position α) (keep : Bool) :
    Step m { m with arcStart := start, keepDepth := keep }

/-- The states that a machine goes through, one step after the other, and the last of them. -/
inductive Route : Machine α → List (Machine α) → Machine α → Prop where
  | nil (m : Machine α) : Route m [] m
  | cons {m m' m'' : Machine α} {path : List (Machine α)} (h : Step m m')
    (rest : Route m' path m'') : Route m (m' :: path) m''

namespace Route

variable {m m' m'' : Machine α} {path path' : List (Machine α)}

theorem append (h : Route m path m') (h' : Route m' path' m'') :
    Route m (path ++ path') m'' := by
  induction h with
  | nil m => exact h'
  | cons hs _ ih => exact cons hs (ih h')

theorem last_mem (h : Route m path m') : m' ∈ m :: path := by
  induction h with
  | nil m => exact List.mem_cons_self
  | cons _ _ ih => exact List.mem_cons_of_mem _ ih

end Route

/-- Moves are emitted one at a time. -/
theorem Emits.route {m m' : Machine α} (h : Emits m m') :
    ∃ path, Route m path m' ∧ ∀ x ∈ path, Emits m x := by
  obtain ⟨ds, rfl, -⟩ := h
  induction ds generalizing m with
  | nil => exact ⟨[], Route.nil m, by simp⟩
  | cons d ds ih =>
    obtain ⟨path, hroute, hpath⟩ := ih (m := m.emit d)
    refine ⟨m.emit d :: path, Route.cons (Step.emit m d) hroute, ?_⟩
    intro x hx
    rcases List.mem_cons.mp hx with rfl | hx
    · exact emits_emit m d
    · exact (emits_emit m d).trans (hpath x hx)

/-! ## Keeping track -/

/-- A later state of a machine has kept track: its queue has grown at the end only, its position is
where the new moves lead from the old one, and speeds and transforms are as before. -/
structure Tracks (m m' : Machine α) : Prop where
  queue_eq : m'.queue = m.queue ++ (m'.since m).toArray
  position_eq : m'.position = m.position.afterAll (m'.since m)
  feeds_eq : m'.feeds = m.feeds
  transforms_eq : m'.transforms = m.transforms

namespace Tracks

variable {m m' m'' : Machine α}

theorem of_emits (h : Emits m m') : Tracks m m' :=
  ⟨h.queue_eq, h.position_eq, h.feeds_eq, h.transforms_eq⟩

theorem refl (m : Machine α) : Tracks m m := of_emits (Leads.refl m)

theorem queue_emit (h : Tracks m m') (d : Move α) :
    (m'.emit d).queue = m.queue ++ (m'.since m ++ [d]).toArray := by
  show m'.queue.push d = _
  rw [h.queue_eq]
  simp [since]

theorem since_emit (h : Tracks m m') (d : Move α) :
    (m'.emit d).since m = m'.since m ++ [d] := since_of_queue (h.queue_emit d)

/-- **A step keeps track.** -/
theorem step (h : Tracks m m') (s : Step m' m'') : Tracks m m'' := by
  cases s with
  | note start keep => exact ⟨h.queue_eq, h.position_eq, h.feeds_eq, h.transforms_eq⟩
  | emit d =>
    refine ⟨?_, ?_, h.feeds_eq, h.transforms_eq⟩
    · rw [h.since_emit, h.queue_emit]
    · rw [h.since_emit, Position.afterAll_append, ← h.position_eq]
      rfl

theorem queue_trans (h : Tracks m m') (h' : Tracks m' m'') :
    m''.queue = m.queue ++ (m'.since m ++ m''.since m').toArray := by
  have hqueue : m''.queue = m.queue ++ (m'.since m).toArray ++ (m''.since m').toArray :=
    h.queue_eq ▸ h'.queue_eq
  rw [hqueue, Array.append_assoc]
  simp

/-- The moves of two stretches, one after the other. -/
theorem since_trans (h : Tracks m m') (h' : Tracks m' m'') :
    m''.since m = m'.since m ++ m''.since m' := since_of_queue (h.queue_trans h')

theorem trans (h : Tracks m m') (h' : Tracks m' m'') : Tracks m m'' := by
  have hsince := h.since_trans h'
  refine ⟨?_, ?_, h'.feeds_eq.trans h.feeds_eq, h'.transforms_eq.trans h.transforms_eq⟩
  · rw [hsince]
    exact h.queue_trans h'
  · rw [hsince, Position.afterAll_append, ← h.position_eq]
    exact h'.position_eq

/-- **A machine keeps track along a route.** -/
theorem along {m₀ : Machine α} {path : List (Machine α)} (h : Tracks m₀ m)
    (hr : Route m path m') : ∀ x ∈ m :: path, Tracks m₀ x := by
  induction hr with
  | nil m => simpa using h
  | cons hs _ ih =>
    intro x hx
    rcases List.mem_cons.mp hx with rfl | hx
    · exact h
    · exact ih (h.step hs) x hx

end Tracks

end Machine

/-! ## Commands -/

open Machine

variable [Scalar α]

theorem ArcOrder.exists_route (o : ArcOrder α) (command : CommandKind) (tool : Tool α)
    (m : Machine α) : ∃ path, Route m path (o.execute command tool m).machine := by
  cases hc : o.check tool with
  | error cause =>
    rw [ArcOrder.execute_of_check_error hc]
    exact ⟨[], Route.nil m⟩
  | ok u =>
    rw [ArcOrder.execute_of_check hc]
    obtain ⟨path, hroute, -⟩ := ((ArcPlan.ofOrder o tool m).emits_carryOut m).route
    exact ⟨_, Route.cons (Step.note m m.position o.passes.fromZero) hroute⟩

theorem ArcOrder.exists_route_made (made : Except (Cause α) (ArcOrder α)) (command : CommandKind)
    (tool : Tool α) (m : Machine α) :
    ∃ path, Route m path (ArcOrder.executeMade command tool made m).machine := by
  cases made with
  | error cause => exact ⟨[], Route.nil m⟩
  | ok o => exact o.exists_route command tool m

/-- The route of a rectangle notes nothing. -/
theorem Rectangle.exists_route (r : Rectangle α) (tool : Tool α) (m : Machine α) :
    ∃ path, Route m path (r.execute tool m).machine ∧
      ∀ x ∈ path, x.arcStart = m.arcStart ∧ x.keepDepth = m.keepDepth := by
  obtain ⟨path, hroute, hpath⟩ := (r.emits_execute tool m).route
  refine ⟨path, hroute, fun x hx => ?_⟩
  obtain ⟨ds, rfl, -⟩ := hpath x hx
  simp [emitAll_eq]

/-- **Every command goes along a route.** -/
theorem Command.exists_route (c : Command α) (tool : Tool α) (m : Machine α) :
    ∃ path, Route m path (c.execute tool m).machine := by
  cases c with
  | chordArc a => exact ArcOrder.exists_route_made _ .chordArc tool m
  | bearingCircle c => exact ArcOrder.exists_route_made _ .bearingCircle tool m
  | arc a => exact ArcOrder.exists_route_made _ .arc tool m
  | rectangle r =>
    obtain ⟨path, hroute, -⟩ := r.exists_route tool m
    exact ⟨path, hroute⟩
  | centerCircle c =>
    rcases c.execute_cases tool m with ⟨cause, he⟩ | ⟨entry, o, -, -, he⟩
    · show ∃ path, Route m path (c.execute tool m).machine
      rw [he]
      exact ⟨[], Route.nil m⟩
    · show ∃ path, Route m path (c.execute tool m).machine
      rw [he]
      have approached : Emits m (m.approach tool entry m.position.z) :=
        leads_approach trivial trivial fun _ _ => trivial
      obtain ⟨ahead, hahead, -⟩ := approached.route
      obtain ⟨around, haround⟩ :=
        o.exists_route .centerCircle tool (m.approach tool entry m.position.z)
      exact ⟨ahead ++ around, hahead.append haround⟩

/-! ## Runs -/

/-- After its first command a run either goes on with the others or stops there. -/
theorem Run.commands_cons (tool : Tool α) (stopOnError : Bool) (r : Run α) (index : Nat)
    (c : Command α) :
    ∃ r' : Run α, r'.machine = (c.execute tool r.machine).machine ∧
      ((∀ rest, r.commands tool stopOnError index (c :: rest) =
          r'.commands tool stopOnError (index + 1) rest) ∨
        ∀ rest, (r.commands tool stopOnError index (c :: rest)).machine = r'.machine) := by
  cases hr : (c.execute tool r.machine).rejection with
  | none =>
    refine ⟨⟨_, { r.report with completed := r.report.completed + 1 }⟩, rfl,
      Or.inl fun rest => ?_⟩
    simp only [Run.commands, hr]
  | some rejection =>
    let failures := r.report.failures.push ⟨index, c.kind, rejection⟩
    refine ⟨⟨_, { r.report with failures := failures }⟩, rfl, ?_⟩
    cases stopOnError with
    | false => exact Or.inl fun rest => by simp only [Run.commands, hr]; rfl
    | true => exact Or.inr fun rest => by simp only [Run.commands, hr]; rfl

/-- Commands go along a route that comes by the machine after each of them. -/
theorem Run.exists_route (tool : Tool α) (stopOnError : Bool) (cs : List (Command α))
    (r : Run α) (index : Nat) :
    ∃ path, Route r.machine path (r.commands tool stopOnError index cs).machine ∧
      ∀ k, (r.commands tool stopOnError index (cs.take k)).machine ∈ r.machine :: path := by
  induction cs generalizing r index with
  | nil => exact ⟨[], Route.nil _, fun k => by simp [Run.commands]⟩
  | cons c rest ih =>
    obtain ⟨here, hhere⟩ := c.exists_route tool r.machine
    obtain ⟨r', hr', hgo | hstop⟩ := r.commands_cons tool stopOnError index c
    · rw [← hr'] at hhere
      obtain ⟨there, hthere, hpoints⟩ := ih r' (index + 1)
      refine ⟨here ++ there, ?_, fun k => ?_⟩
      · rw [hgo]
        exact hhere.append hthere
      · rw [← List.cons_append]
        cases k with
        | zero => exact List.mem_append_left _ List.mem_cons_self
        | succ k =>
          rw [List.take_succ_cons, hgo]
          rcases List.mem_cons.mp (hpoints k) with hk | hk
          · rw [hk]
            exact List.mem_append_left _ hhere.last_mem
          · exact List.mem_append_right _ hk
    · -- the others are not reached, so it does not matter how many of them there are
      rw [← hr'] at hhere
      refine ⟨here, ?_, fun k => ?_⟩
      · rw [hstop]
        exact hhere
      · cases k with
        | zero => exact List.mem_cons_self
        | succ k =>
          rw [List.take_succ_cons, hstop]
          exact hhere.last_mem

end Toolpath
