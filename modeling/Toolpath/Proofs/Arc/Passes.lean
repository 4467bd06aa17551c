import Toolpath.Arc.Order
import Toolpath.Proofs.Arc.Segments

/-!
# The passes of an arc order

What an arc order emits, pass by pass. Moves are told apart by whether they cut in the plane
(`Move.cuts`): following an arc emits nothing else, and the ways down, up and back over the start
emit none of them.

* `ArcPlan.follow_eq` — following an arc is emitting its moves
* `ArcPlan.follow_level`, `ArcPlan.nest_level` — a level cut keeps its depth
* `ArcPlan.reach`, `ArcPlan.passes_succ` — the machine before each pass
* `ArcPlan.emits_carryOut` — a plan does nothing but note where it starts and emit moves
* `ArcPlan.size_carryOut` — how many moves it emits at least
-/

namespace Toolpath

open Scalar

variable {α : Type}

namespace CircleCut

theorem level_cases {c : CircleCut} (h : c.isSpiral = false) : c = .profile ∨ c = .pocket := by
  cases c with
  | profile => exact Or.inl rfl
  | pocket => exact Or.inr rfl
  | spiral => cases h
  | spiralWithBottom => cases h

theorem spiral_cases {c : CircleCut} (h : c.isSpiral = true) :
    c = .spiral ∨ c = .spiralWithBottom := by
  cases c with
  | profile => cases h
  | pocket => cases h
  | spiral => exact Or.inl rfl
  | spiralWithBottom => exact Or.inr rfl

theorem ne_pocket {c : CircleCut} (h : c.isSpiral = true) : c ≠ .pocket := by
  rintro rfl
  cases h

end CircleCut

/-! ## Cuts in the plane -/

namespace Move

/-- A circular move, or a straight cut with a word for the plane. -/
def cuts (d : Move α) : Bool :=
  d.kind.isArc || d.kind == .linear && (d.x.isSome || d.y.isSome)

/-- Ends at a depth if it starts there. -/
def Keeps (z : α) (d : Move α) : Prop := d.z = none ∨ d.z = some z

/-- Cuts in the plane, and keeps a depth. -/
def CutsAt (z : α) (d : Move α) : Prop := d.cuts = true ∧ d.Keeps z

/-- Does not cut in the plane. -/
def Idle (d : Move α) : Prop := d.cuts = false

theorem Keeps.after_z {z : α} {d : Move α} (h : d.Keeps z) {p : Position α} (hp : p.z = z) :
    (p.after d).z = z := by
  rcases h with h | h <;> simp [Position.after, h, hp]

end Move

/-- Cuts that keep a depth start and end there, if the first one starts there. -/
theorem Along.at_depth {z : α} {ds : List (Move α)} {p : Position α}
    (h : Along (fun _ d => d.Keeps z) p ds) (hp : p.z = z) :
    Along (fun q d => q.z = z ∧ (q.after d).z = z) p ds ∧ (p.afterAll ds).z = z := by
  induction ds generalizing p with
  | nil => exact ⟨trivial, hp⟩
  | cons d ds ih =>
    have hd := h.1.after_z hp
    obtain ⟨hds, hend⟩ := ih h.2 hd
    exact ⟨⟨⟨hp, hd⟩, hds⟩, hend⟩

/-- Among moves that do not cut there is no cut. -/
theorem Machine.Leads.filter_cuts {m m' : Machine α}
    (h : Machine.Leads (fun _ d => d.Idle) m m') : (m'.since m).filter Move.cuts = [] := by
  rw [List.filter_eq_nil_iff]
  intro d hd
  rw [h.along_since.forall d hd]
  exact Bool.false_ne_true

variable [Scalar α]

/-! ## Following an arc -/

namespace ArcPlan

variable (p : ArcPlan α)

theorem cuts_circularMove (a : Arc α) (d : Depth α) (feed : α) :
    (p.circularMove a d feed).cuts = true := by
  unfold circularMove
  cases p.clockwise <;> cases d.ramps <;> rfl

/-- The moves along an arc. -/
def followMoves (a : Arc α) (d : Depth α) (feed : α) : List (Move α) :=
  if p.segmented then (Sampler.ofArc a p.stretch d p.tool.arcStep feed).moves
  else [p.circularMove a d feed]

theorem follow_eq (a : Arc α) (d : Depth α) (m : Machine α) :
    p.follow a d m = m.emitAll (p.followMoves a d m.feeds.xyPerMinute) := by
  unfold follow followMoves
  split
  · exact Sampler.cut_eq _ m
  · rfl

/-- A move along an arc is the circular one, or a segment. -/
theorem mem_followMoves {a : Arc α} {d : Depth α} {feed : α} {e : Move α}
    (h : e ∈ p.followMoves a d feed) :
    e = p.circularMove a d feed ∨
      ∃ q angle, e = (Sampler.ofArc a p.stretch d p.tool.arcStep feed).moveTo q angle := by
  unfold followMoves at h
  split at h
  · exact Or.inr (Sampler.mem_moves h)
  · exact Or.inl (List.mem_singleton.mp h)

theorem cuts_followMoves {a : Arc α} {d : Depth α} {feed : α} {e : Move α}
    (h : e ∈ p.followMoves a d feed) : e.cuts = true := by
  rcases p.mem_followMoves h with rfl | ⟨q, angle, rfl⟩
  · exact p.cuts_circularMove a d feed
  · rfl

/-- Every move along an arc cuts. -/
theorem follow_leads (a : Arc α) (d : Depth α) (m : Machine α) :
    Machine.Leads (fun _ e => e.cuts = true) m (p.follow a d m) :=
  ⟨_, p.follow_eq a d m, along_of_forall (fun _ => p.cuts_followMoves) _⟩

/-- **Every move along a level arc cuts and keeps its depth.** A circular move has no depth word;
segments have one, and it is always the same. -/
theorem follow_level (a : Arc α) (z : α) (m : Machine α) :
    Machine.Leads (fun _ d => d.CutsAt z) m (p.follow a (.level z) m) := by
  refine ⟨_, p.follow_eq a (.level z) m, along_of_forall ?_ _⟩
  intro e he
  refine ⟨p.cuts_followMoves he, ?_⟩
  rcases p.mem_followMoves he with rfl | ⟨q, angle, rfl⟩
  · exact Or.inl rfl
  · exact Or.inr rfl

/-! ## Pockets -/

/-- The circle of a ring. -/
def ringArc (v : Offset α) : Arc α :=
  ⟨p.ringStart v, p.ringStart v, p.order.center.sub v, p.order.turn.isClockwise⟩

theorem ring_level (z : α) (m : Machine α) (v : Offset α) :
    Machine.Leads (fun _ d => d.CutsAt z) m (p.ring z m v) := p.follow_level _ z m

/-- Every move of the rings of a pocket cuts and keeps its depth. -/
theorem nest_level (z : α) (m : Machine α) (rings : List (Offset α)) :
    Machine.Leads (fun _ d => d.CutsAt z) m (p.nest z m rings) := by
  cases rings with
  | nil => exact Machine.Leads.refl m
  | cons v rest =>
    have next (m : Machine α) (w : Offset α) : Machine.Leads (fun _ d => d.CutsAt z) m
        (p.ring z (m.lineTo (p.stretch.point (p.ringStart w))) w) :=
      (Machine.Leads.emit ⟨rfl, Or.inl rfl⟩).trans (p.ring_level z _ w)
    exact (p.ring_level z m v).trans (Machine.Leads.foldl next rest _)

/-- The rings of the pocket of a plan. -/
def rings : List (Offset α) :=
  Pocket.rings (maxPasses + 1) p.order.center (p.order.ringStep p.tool)

/-! ## Between the cuts -/

theorem idle_goBack (m : Machine α) : Machine.Leads (fun _ d => d.Idle) m (p.goBack m) :=
  (Machine.leads_retract rfl).trans (Machine.Leads.emit rfl)

section

variable {P : Position α → Move α → Prop}

theorem leads_sink {z : α} {m : Machine α}
    (h : P m.position (.linearZ (z + p.order.passes.plunge) m.feeds.zPerMinute)) :
    Machine.Leads P m (p.sink z m).2 := by
  unfold sink
  by_cases hp : (p.order.passes.plunge != 0) = true
  · simp only [if_pos hp]
    exact Machine.Leads.emit h
  · simp only [if_neg hp]
    exact Machine.Leads.refl m

theorem leads_surface {m : Machine α} (h : P m.position (.rapidZ 0)) :
    Machine.Leads P m (p.surface m).2 := by
  unfold surface
  by_cases hz : (p.order.passes.fromZero && m.position.z != 0) = true
  · simp only [if_pos hz]
    exact Machine.Leads.emit h
  · simp only [if_neg hz]
    exact Machine.Leads.refl m

end

theorem idle_sink (z : α) (m : Machine α) :
    Machine.Leads (fun _ d => d.Idle) m (p.sink z m).2 := p.leads_sink rfl

theorem idle_surface (m : Machine α) :
    Machine.Leads (fun _ d => d.Idle) m (p.surface m).2 := p.leads_surface rfl

theorem lifts_sink (z : α) (m : Machine α) : Machine.Lifts m (p.sink z m).2 := p.leads_sink rfl

theorem lifts_surface (m : Machine α) : Machine.Lifts m (p.surface m).2 := p.leads_surface rfl

theorem idle_between (z : α) (m : Machine α) :
    Machine.Leads (fun _ d => d.Idle) m (p.between z m) := by
  unfold between
  split
  · exact Machine.Leads.refl m
  · split
    · exact (p.idle_goBack m).trans (Machine.Leads.emit rfl)
    · exact p.idle_goBack m

/-! ## One pass -/

/-- The cuts of a pass at one depth: the rings of a pocket, or the outline. -/
def levelCuts (z : α) (m : Machine α) : Machine α :=
  if p.order.cut = .pocket then p.nest z m p.rings else p.follow p.outline (.level z) m

theorem levelCuts_level (z : α) (m : Machine α) :
    Machine.Leads (fun _ d => d.CutsAt z) m (p.levelCuts z m) := by
  unfold levelCuts
  split
  · exact p.nest_level z m p.rings
  · exact p.follow_level p.outline z m

/-- A pass that is not a spiral goes down first, cuts at one depth, and may leave it without
cutting. -/
theorem pass_of_level (h : p.order.cut.isSpiral = false) (z : α) (m : Machine α) :
    (p.pass z m).1 = (p.sink z m).1 ∧
      Machine.Leads (fun _ d => d.Idle) (p.levelCuts (p.sink z m).1 (p.sink z m).2)
        (p.pass z m).2 := by
  unfold pass levelCuts
  rcases CircleCut.level_cases h with hc | hc <;> rw [hc]
  · exact ⟨rfl, Machine.Leads.refl _⟩
  · refine ⟨rfl, ?_⟩
    rw [if_pos rfl]
    exact (Machine.Leads.emit (d := .rapidZ p.tool.safeZ) rfl).trans (Machine.Leads.emit rfl)

/-- A spiral goes down along the outline. -/
theorem pass_of_spiral (h : p.order.cut.isSpiral = true) (z : α) (m : Machine α) :
    p.pass z m =
      (z + p.order.passes.plunge,
        p.follow p.outline (.ramp z p.order.passes.plunge) m) := by
  unfold pass
  rcases CircleCut.spiral_cases h with hc | hc <;> rw [hc]

theorem emits_pass (z : α) (m : Machine α) : Machine.Emits m (p.pass z m).2 := by
  cases h : p.order.cut.isSpiral with
  | true =>
    rw [p.pass_of_spiral h]
    exact (p.follow_leads _ _ m).emits
  | false =>
    obtain ⟨-, hrest⟩ := p.pass_of_level h z m
    exact ((p.idle_sink z m).emits.trans (p.levelCuts_level _ _).emits).trans hrest.emits

/-! ## All passes -/

/-- The depth and the machine before the pass with a number, counted from zero. -/
def reach : Nat → α → Machine α → α × Machine α
  | 0, z, m => (z, m)
  | k + 1, z, m => reach k (p.pass z m).1 (p.between (p.pass z m).1 (p.pass z m).2)

theorem passes_succ (n : Nat) (z : α) (m : Machine α) :
    p.passes (n + 1) z m = p.pass (p.reach n z m).1 (p.reach n z m).2 := by
  induction n generalizing z m with
  | zero => rfl
  | succ n ih => exact ih (p.pass z m).1 (p.between (p.pass z m).1 (p.pass z m).2)

theorem reach_succ (k : Nat) (z : α) (m : Machine α) :
    p.reach (k + 1) z m =
      ((p.pass (p.reach k z m).1 (p.reach k z m).2).1,
        p.between (p.pass (p.reach k z m).1 (p.reach k z m).2).1
          (p.pass (p.reach k z m).1 (p.reach k z m).2).2) := by
  induction k generalizing z m with
  | zero => rfl
  | succ k ih => exact ih (p.pass z m).1 (p.between (p.pass z m).1 (p.pass z m).2)

section

variable {R : Machine α → Machine α → Prop} [IsPreorder (Machine α) R]

/-- A relation that composes holds up to any pass if it holds across each pass and each way between
two of them. -/
theorem rel_reach (hpass : ∀ z m, R m (p.pass z m).2) (hbetween : ∀ z m, R m (p.between z m))
    (k : Nat) (z : α) (m : Machine α) : R m (p.reach k z m).2 := by
  induction k with
  | zero => exact refl_of R m
  | succ k ih =>
    rw [reach_succ]
    exact trans_of R (trans_of R ih (hpass _ _)) (hbetween _ _)

theorem rel_passes (hpass : ∀ z m, R m (p.pass z m).2) (hbetween : ∀ z m, R m (p.between z m))
    (n : Nat) (z : α) (m : Machine α) : R m (p.passes n z m).2 := by
  cases n with
  | zero => exact refl_of R m
  | succ n =>
    rw [passes_succ]
    exact trans_of R (p.rel_reach hpass hbetween n z m) (hpass _ _)

end

section

variable {P : Position α → Move α → Prop}

/-- Before a pass, the passes lead where each of them and each way between them leads. -/
theorem leads_reach (hpass : ∀ z m, Machine.Leads P m (p.pass z m).2)
    (hbetween : ∀ z m, Machine.Leads P m (p.between z m)) (k : Nat) (z : α) (m : Machine α) :
    Machine.Leads P m (p.reach k z m).2 := p.rel_reach hpass hbetween k z m

theorem leads_passes (hpass : ∀ z m, Machine.Leads P m (p.pass z m).2)
    (hbetween : ∀ z m, Machine.Leads P m (p.between z m)) (n : Nat) (z : α) (m : Machine α) :
    Machine.Leads P m (p.passes n z m).2 := p.rel_passes hpass hbetween n z m

end

theorem emits_reach (k : Nat) (z : α) (m : Machine α) : Machine.Emits m (p.reach k z m).2 :=
  p.leads_reach p.emits_pass (fun z m => (p.idle_between z m).emits) k z m

theorem emits_passes (n : Nat) (z : α) (m : Machine α) :
    Machine.Emits m (p.passes n z m).2 :=
  p.leads_passes p.emits_pass (fun z m => (p.idle_between z m).emits) n z m

/-- The machine at the start of the level pass below a spiral. -/
def aboveBottom (z : α) (m : Machine α) : Machine α :=
  if p.order.cut = .spiralWithBottom then
    if p.Closed then m else (p.goBack m).plungeTo z
  else m

theorem idle_aboveBottom (z : α) (m : Machine α) :
    Machine.Leads (fun _ d => d.Idle) m (p.aboveBottom z m) := by
  unfold aboveBottom
  split
  · split
    · exact Machine.Leads.refl m
    · exact (p.idle_goBack m).trans (Machine.Leads.emit rfl)
  · exact Machine.Leads.refl m

/-- The bottom of a plan is the outline at one depth, or nothing. -/
theorem bottom_level (z : α) (m : Machine α) :
    Machine.Leads (fun _ d => d.CutsAt z) (p.aboveBottom z m) (p.bottom z m) := by
  unfold bottom aboveBottom
  cases p.order.cut with
  | spiralWithBottom => exact p.follow_level p.outline z _
  | profile => exact Machine.Leads.refl m
  | pocket => exact Machine.Leads.refl m
  | spiral => exact Machine.Leads.refl m

theorem emits_bottom (z : α) (m : Machine α) : Machine.Emits m (p.bottom z m) :=
  (p.idle_aboveBottom z m).emits.trans (p.bottom_level z m).emits

/-! ## The whole plan -/

/-- A machine that has noted where the arc starts, and whether depth is counted from zero. -/
def noted (m : Machine α) : Machine α :=
  { m with arcStart := m.position, keepDepth := p.order.passes.fromZero }

/-- The depth and the machine before the first pass. -/
def opened (m : Machine α) : α × Machine α := p.surface (p.noted m)

/-- The depth and the machine after the last pass. -/
def finished (m : Machine α) : α × Machine α :=
  p.passes p.order.passes.repetitions.toNat (p.opened m).1 (p.opened m).2

theorem carryOut_eq (m : Machine α) :
    p.carryOut m =
      (p.bottom (p.finished m).1 (p.finished m).2).pullUp p.order.passes.stayDown
        m.position.z := rfl

/-- **Carrying out a plan is noting where it starts, and then emitting moves.** -/
theorem emits_carryOut (m : Machine α) : Machine.Emits (p.noted m) (p.carryOut m) := by
  rw [carryOut_eq]
  have opened : Machine.Emits (p.noted m) (p.opened m).2 := (p.idle_surface (p.noted m)).emits
  have finished : Machine.Emits (p.noted m) (p.finished m).2 :=
    opened.trans (p.emits_passes _ _ _)
  exact (finished.trans (p.emits_bottom _ _)).trans (Machine.leads_pullUp trivial _)

/-! ## The cuts of a plan, pass by pass -/

/-- The depth and the machine before a pass of the plan, counted from zero. -/
def entering (k : Nat) (m : Machine α) : α × Machine α := p.reach k (p.opened m).1 (p.opened m).2

/-- The depth and the machine after a pass of the plan. -/
def leaving (k : Nat) (m : Machine α) : α × Machine α :=
  p.pass (p.entering k m).1 (p.entering k m).2

/-- The moves of a pass of the plan. -/
def passMoves (k : Nat) (m : Machine α) : List (Move α) :=
  (p.leaving k m).2.since (p.entering k m).2

/-- The moves of the bottom of the plan. -/
def bottomMoves (m : Machine α) : List (Move α) :=
  (p.bottom (p.finished m).1 (p.finished m).2).since (p.finished m).2

theorem entering_succ (k : Nat) (m : Machine α) :
    p.entering (k + 1) m =
      ((p.leaving k m).1, p.between (p.leaving k m).1 (p.leaving k m).2) :=
  p.reach_succ k _ _

theorem finished_eq {n : Nat} (hn : p.order.passes.repetitions.toNat = n + 1) (m : Machine α) :
    p.finished m = p.leaving n m := by
  unfold finished
  rw [hn, passes_succ]
  rfl

theorem emits_leaving (k : Nat) (m : Machine α) :
    Machine.Emits (p.entering k m).2 (p.leaving k m).2 := p.emits_pass _ _

theorem emits_entering (k : Nat) (m : Machine α) :
    Machine.Emits (p.opened m).2 (p.entering k m).2 := p.emits_reach k _ _

theorem feeds_entering (k : Nat) (m : Machine α) : (p.entering k m).2.feeds = m.feeds :=
  (p.emits_entering k m).feeds_eq.trans (p.idle_surface (p.noted m)).feeds_eq

/-- Every pass over a pocket begins over the origin. -/
theorem entering_point_of_pocket (hcut : p.order.cut = .pocket) {m : Machine α}
    (hm : m.position.point = p.origin) (k : Nat) :
    (p.entering k m).2.position.point = p.origin := by
  cases k with
  | zero => exact (p.lifts_surface (p.noted m)).point_eq.trans hm
  | succ k =>
    rw [entering_succ, between, if_pos (Or.inl hcut), leaving, pass, hcut]
    rfl

/-- A pocket has no bottom. -/
theorem bottomMoves_of_pocket (hcut : p.order.cut = .pocket) (m : Machine α) :
    p.bottomMoves m = [] := by
  have hnone : p.bottom (p.finished m).1 (p.finished m).2 = (p.finished m).2 := by
    unfold bottom
    rw [hcut]
  rw [bottomMoves, hnone]
  exact Machine.since_emitAll _ []

/-- Before a pass only the passes before it have cut. -/
theorem filter_cuts_entering (k : Nat) (m : Machine α) :
    ((p.entering k m).2.since (p.opened m).2).filter Move.cuts =
      (List.range k).flatMap fun j => (p.passMoves j m).filter Move.cuts := by
  induction k with
  | zero =>
    have hopen : Machine.Leads (fun _ d => d.Idle) (p.opened m).2 (p.entering 0 m).2 :=
      Machine.Leads.refl _
    rw [hopen.filter_cuts]
    rfl
  | succ k ih =>
    have hpass := (p.emits_entering k m).trans (p.emits_leaving k m)
    have hgap := p.idle_between (p.leaving k m).1 (p.leaving k m).2
    rw [entering_succ, hpass.since_trans hgap, (p.emits_entering k m).since_trans
      (p.emits_leaving k m), List.filter_append, List.filter_append, hgap.filter_cuts, ih,
      List.append_nil, List.range_succ, List.flatMap_append, List.flatMap_singleton]
    rfl

/-- **Every cut of a plan belongs to a pass or to the bottom**, and they come in that order. -/
theorem filter_cuts_carryOut (m : Machine α) :
    ((p.carryOut m).since m).filter Move.cuts =
      ((List.range p.order.passes.repetitions.toNat).flatMap fun k =>
          (p.passMoves k m).filter Move.cuts) ++
        (p.bottomMoves m).filter Move.cuts := by
  have hopen : Machine.Leads (fun _ d => d.Idle) (p.noted m) (p.opened m).2 :=
    p.idle_surface (p.noted m)
  -- the run is cut in four: to the surface, the passes, the bottom, and up again
  have hpasses : Machine.Emits (p.opened m).2 (p.finished m).2 := p.emits_passes _ _ _
  have hbottom := p.emits_bottom (p.finished m).1 (p.finished m).2
  have hup : Machine.Leads (fun _ d => d.Idle) (p.bottom (p.finished m).1 (p.finished m).2)
      (p.carryOut m) := Machine.leads_pullUp rfl p.order.passes.stayDown
  have hcuts : ((p.finished m).2.since (p.opened m).2).filter Move.cuts =
      (List.range p.order.passes.repetitions.toNat).flatMap fun k =>
        (p.passMoves k m).filter Move.cuts := by
    cases hn : p.order.passes.repetitions.toNat with
    | zero =>
      have hnone : p.finished m = p.opened m := by
        unfold finished
        rw [hn]
        rfl
      rw [hnone]
      exact p.filter_cuts_entering 0 m
    | succ n =>
      rw [p.finished_eq hn, (p.emits_entering n m).since_trans (p.emits_leaving n m),
        List.filter_append, filter_cuts_entering, List.range_succ, List.flatMap_append,
        List.flatMap_singleton]
      rfl
  have hsince : (p.carryOut m).since m = (p.carryOut m).since (p.noted m) := rfl
  rw [hsince, ((hopen.emits.trans hpasses).trans hbottom).since_trans hup,
    (hopen.emits.trans hpasses).since_trans hbottom, hopen.since_trans hpasses,
    List.filter_append, List.filter_append, List.filter_append, hopen.filter_cuts,
    hup.filter_cuts, hcuts, List.nil_append, List.append_nil]
  rfl

/-! ## The number of moves -/

variable {p}

theorem size_follow (hwhole : p.segmented = false) (a : Arc α) (d : Depth α) (m : Machine α) :
    (p.follow a d m).queue.size = m.queue.size + 1 := by
  rw [follow, hwhole]
  exact Machine.size_emit _ _

/-- Every pass makes a move, unless it is cut as segments. -/
theorem size_pass (hwhole : p.segmented = false) (z : α) (m : Machine α) :
    m.queue.size + 1 ≤ (p.pass z m).2.queue.size := by
  cases hspiral : p.order.cut.isSpiral with
  | true =>
    rw [p.pass_of_spiral hspiral]
    exact (size_follow hwhole _ _ m).ge
  | false =>
    have hsink := (p.idle_sink z m).size_le
    rcases CircleCut.level_cases hspiral with hcut | hcut <;> rw [pass, hcut]
    · exact (Nat.succ_le_succ hsink).trans (size_follow hwhole _ _ _).ge
    · -- a pocket rises at its end
      have hnest := (p.nest_level (p.sink z m).1 (p.sink z m).2 p.rings).size_le
      have hrise := (Machine.emits_emit (p.nest (p.sink z m).1 (p.sink z m).2 p.rings)
        (.rapidZ p.tool.safeZ)).size_le
      exact (Nat.succ_le_succ ((hsink.trans hnest).trans hrise)).trans (Machine.size_emit _ _).ge

theorem size_reach (hwhole : p.segmented = false) (k : ℕ) (z : α) (m : Machine α) :
    m.queue.size + k ≤ (p.reach k z m).2.queue.size := by
  induction k with
  | zero => exact le_rfl
  | succ k ih =>
    rw [reach_succ]
    exact (Nat.succ_le_succ ih).trans
      ((size_pass hwhole _ _).trans (p.idle_between _ _).size_le)

/-- **A plan makes a move for every repetition**, unless it is cut as segments. -/
theorem size_carryOut (hwhole : p.segmented = false) (m : Machine α) :
    m.queue.size + p.order.passes.repetitions.toNat ≤ (p.carryOut m).queue.size := by
  have hopened : m.queue.size ≤ (p.opened m).2.queue.size :=
    (p.idle_surface (p.noted m)).size_le
  have hfinished : (p.opened m).2.queue.size + p.order.passes.repetitions.toNat ≤
      (p.finished m).2.queue.size := by
    unfold finished
    cases p.order.passes.repetitions.toNat with
    | zero => exact le_rfl
    | succ n =>
      rw [passes_succ]
      exact (Nat.succ_le_succ (size_reach hwhole n _ _)).trans (size_pass hwhole _ _)
  rw [carryOut_eq]
  have hbottom := (p.emits_bottom (p.finished m).1 (p.finished m).2).size_le
  have hup := (Machine.lifts_pullUp (p.bottom (p.finished m).1 (p.finished m).2)
    p.order.passes.stayDown m.position.z).size_le
  exact ((Nat.add_le_add_right hopened _).trans hfinished).trans (hbottom.trans hup)

end ArcPlan

end Toolpath
