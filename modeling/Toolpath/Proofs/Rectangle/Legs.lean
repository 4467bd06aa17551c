import Toolpath.Proofs.Arc.Passes
import Toolpath.Proofs.Rectangle.Laps

/-!
# The legs of a rectangle

A pass over a rectangle goes down first, unless it goes down along a ramp. What is left of it are
its legs: the ramp, the level laps, and the way from each lap to the next. The passes follow each
other from the corner where the first one starts, and the tool goes back there in between.

* `Rectangle.legs`, `Rectangle.legMoves` — the legs of a pass and their moves
* `EachLeg` — every leg has a property, seen from where it begins
* `Rectangle.pass_eq` — a pass is its way down and its legs
* `Rectangle.entering`, `Rectangle.leaving` — the depth and the machine before and after each pass
* `Rectangle.filter_cuts_execute` — every cut belongs to a pass
-/

namespace Toolpath

open Scalar

variable {α : Type}

/-- A part of a pass that is cut in the plane. -/
inductive Leg where
  /-- Once round the first lap, going down. -/
  | ramp
  /-- Once round a lap, at one depth. -/
  | lap (k : Nat)
  /-- To the start corner of a lap, from the lap before. -/
  | join (k : Nat)
  deriving DecidableEq, Repr

/-- The lap that a leg goes round. -/
def Leg.lap? : Leg → Option Nat
  | .ramp => some 0
  | .lap k => some k
  | .join _ => none

/-- The positions that a run of moves comes to, one after the other. -/
def Position.stops : Position α → List (Move α) → List (Position α)
  | _, [] => []
  | p, d :: ds => p.after d :: (p.after d).stops ds

/-- Every leg has a property, seen from where the tool is when it begins. -/
def EachLeg (moves : Leg → List (Move α)) (P : Position α → Leg → Prop) :
    Position α → List Leg → Prop
  | _, [] => True
  | p, leg :: legs => P p leg ∧ EachLeg moves P (p.afterAll (moves leg)) legs

section

variable {moves : Leg → List (Move α)} {P : Position α → Leg → Prop}

@[simp] theorem eachLeg_nil (p : Position α) : EachLeg moves P p [] := trivial

@[simp] theorem eachLeg_cons {p : Position α} {leg : Leg} {legs : List Leg} :
    EachLeg moves P p (leg :: legs) ↔ P p leg ∧ EachLeg moves P (p.afterAll (moves leg)) legs :=
  Iff.rfl

theorem eachLeg_append {p : Position α} {legs legs' : List Leg} :
    EachLeg moves P p (legs ++ legs') ↔
      EachLeg moves P p legs ∧ EachLeg moves P (p.afterAll (legs.flatMap moves)) legs' := by
  induction legs generalizing p with
  | nil => simp
  | cons leg legs ih =>
    rw [List.cons_append, eachLeg_cons, eachLeg_cons, ih, List.flatMap_cons,
      Position.afterAll_append, and_assoc]

/-- What each leg of a list needs before it and has after it. -/
theorem EachLeg.of_invariant {I : Position α → Prop} {legs : List Leg}
    (h : ∀ p, ∀ leg ∈ legs, I p → P p leg ∧ I (p.afterAll (moves leg))) {p : Position α}
    (hp : I p) : EachLeg moves P p legs ∧ I (p.afterAll (legs.flatMap moves)) := by
  induction legs generalizing p with
  | nil => exact ⟨trivial, hp⟩
  | cons leg legs ih =>
    obtain ⟨hleg, hnext⟩ := h p leg List.mem_cons_self hp
    obtain ⟨hlegs, hend⟩ := ih (fun q leg' hmem => h q leg' (List.mem_cons_of_mem _ hmem)) hnext
    rw [List.flatMap_cons, Position.afterAll_append]
    exact ⟨⟨hleg, hlegs⟩, hend⟩

theorem EachLeg.mono {Q : Position α → Leg → Prop} {legs : List Leg}
    (hPQ : ∀ p, ∀ leg ∈ legs, P p leg → Q p leg) {p : Position α} (h : EachLeg moves P p legs) :
    EachLeg moves Q p legs := by
  induction legs generalizing p with
  | nil => exact trivial
  | cons leg legs ih =>
    obtain ⟨hleg, hlegs⟩ := h
    exact ⟨hPQ p leg List.mem_cons_self hleg,
      ih (fun q leg' hmem => hPQ q leg' (List.mem_cons_of_mem _ hmem)) hlegs⟩

end

variable [Scalar α]

/-! ## The legs of a pass -/

namespace Layout

/-- The laps behind the first one, with the way to each of them. -/
def innerLegs (l : Layout α) : List Leg :=
  (List.range (l.laps - 1)).flatMap fun j => [.join (j + 1), .lap (j + 1)]

end Layout

namespace Rectangle

variable (r : Rectangle α) (tool : Tool α) (l : Layout α)

/-- A pass goes down along a ramp. -/
def ramps (isFirst : Bool) : Bool := r.passes.plunge != 0 && (r.rampFirst && isFirst)

/-- The legs of a pass. -/
def legs (isFirst : Bool) : List Leg :=
  (if r.ramps isFirst then
    if r.passes.repetitions = 1 then [.ramp, .lap 0] else [.ramp]
  else [.lap 0]) ++ l.innerLegs

/-- The moves of a leg of a pass from a depth. -/
def legMoves (feed z : α) : Leg → List (Move α)
  | .ramp =>
    ((l.lapCorners 0).zip rampFractions).map fun pf =>
      (Move.linearXY pf.1 feed).withZ (z + r.passes.plunge * pf.2)
  | .lap k => (l.lapCorners k).map fun p => .linearXY p feed
  | .join k => [.linearXY (l.entry k) feed]

/-- The way down before the first leg of a pass from a depth. -/
def descent (isFirst : Bool) (feed z : α) : List (Move α) :=
  if r.passes.plunge != 0 && !r.ramps isFirst then [.linearZ (z + r.passes.plunge) feed] else []

theorem innerLaps_eq (m : Machine α) (z : α) :
    l.innerLaps m = m.emitAll (l.innerLegs.flatMap (r.legMoves l m.feeds.xyPerMinute z)) := by
  unfold Layout.innerLaps Layout.innerLegs
  induction List.range (l.laps - 1) generalizing m with
  | nil => rfl
  | cons j js ih =>
    have hfeeds : (l.lap (j + 1) (m.lineTo (l.entry (j + 1)))).feeds = m.feeds := by
      rw [Layout.lap_eq, Machine.feeds_emitAll]
      rfl
    rw [List.foldl_cons, ih, hfeeds, Layout.lap_eq, List.flatMap_cons, List.flatMap_append,
      Machine.emitAll_append]
    congr 1
    simp [legMoves, Machine.lineTo, Machine.emit]

/-- **A pass is its way down and its legs.** -/
theorem pass_eq (isFirst : Bool) (z : α) (m : Machine α) :
    (r.pass l isFirst z m).2 =
      m.emitAll (r.descent isFirst m.feeds.zPerMinute z ++
        (r.legs l isFirst).flatMap (r.legMoves l m.feeds.xyPerMinute z)) := by
  have hlap (m : Machine α) :
      l.lap 0 m = m.emitAll (r.legMoves l m.feeds.xyPerMinute z (.lap 0)) := l.lap_eq 0 m
  have hramp : l.rampLap 0 z r.passes.plunge m =
      m.emitAll (r.legMoves l m.feeds.xyPerMinute z .ramp) := l.rampLap_eq 0 z _ m
  have hinner := r.innerLaps_eq l (z := z)
  unfold legs descent ramps
  rcases r.pass_cases l isFirst z m with
    ⟨hp, hr, hn, h⟩ | ⟨hp, hr, hn, h⟩ | ⟨hp, hr, h⟩ | ⟨hp, h⟩ <;> rw [h]
  · simp [hp, hr, hn, hramp, hlap, hinner]
  · simp [hp, hr, hn, hramp, hinner]
  · simp [hp, hr, hlap, hinner, Machine.plungeTo, Machine.emit]
  · simp [hp, hlap, hinner]

/-! ## All passes -/

/-- The depth and the machine before a pass, counted from zero. -/
def entering (m : Machine α) : Nat → α × Machine α
  | 0 => (r.surface m.position.z, m.approach tool (l.entry 0) (r.surface m.position.z))
  | k + 1 =>
    let before := entering m k
    let after := r.pass l (k == 0) before.1 before.2
    (after.1, goBack tool l false after.1 after.2)

/-- The depth and the machine after a pass. -/
def leaving (m : Machine α) (k : Nat) : α × Machine α :=
  r.pass l (k == 0) (r.entering tool l m k).1 (r.entering tool l m k).2

/-- The moves of a pass. -/
def passMoves (m : Machine α) (k : Nat) : List (Move α) :=
  (r.leaving tool l m k).2.since (r.entering tool l m k).2

/-- The way down before the first leg of a pass. -/
def sinkMoves (m : Machine α) (k : Nat) : List (Move α) :=
  r.descent (k == 0) m.feeds.zPerMinute (r.entering tool l m k).1

/-- The moves of a leg of a pass. -/
def cutMoves (m : Machine α) (k : Nat) : Leg → List (Move α) :=
  r.legMoves l m.feeds.xyPerMinute (r.entering tool l m k).1

/-- Where the tool is when the first leg of a pass begins. -/
def legStart (m : Machine α) (k : Nat) : Position α :=
  (r.entering tool l m k).2.position.afterAll (r.sinkMoves tool l m k)

variable {r tool l}

theorem entering_succ (m : Machine α) (k : Nat) :
    r.entering tool l m (k + 1) =
      ((r.leaving tool l m k).1,
        goBack tool l false (r.leaving tool l m k).1 (r.leaving tool l m k).2) := rfl

/-- The passes that are left, from any of them on. -/
theorem repeatPass_entering (m : Machine α) (k j : Nat) :
    r.repeatPass tool l (j + 1) (k == 0) (r.entering tool l m k).1 (r.entering tool l m k).2 =
      goBack tool l true (r.leaving tool l m (k + j)).1 (r.leaving tool l m (k + j)).2 := by
  induction j generalizing k with
  | zero => rfl
  | succ j ih =>
    have hnext := ih (k + 1)
    rw [Nat.add_right_comm] at hnext
    exact hnext

theorem passed_eq {n : Nat} (hn : r.passes.repetitions.toNat = n + 1) (m : Machine α) :
    r.passed tool l m =
      goBack tool l true (r.leaving tool l m n).1 (r.leaving tool l m n).2 := by
  have hall : r.repeatPass tool l (n + 1) true (r.entering tool l m 0).1 (r.entering tool l m 0).2 =
      goBack tool l true (r.leaving tool l m (0 + n)).1 (r.leaving tool l m (0 + n)).2 :=
    repeatPass_entering m 0 n
  rw [Nat.zero_add] at hall
  unfold passed
  rw [hn]
  exact hall

theorem emits_leaving (m : Machine α) (k : Nat) :
    Machine.Emits (r.entering tool l m k).2 (r.leaving tool l m k).2 :=
  (r.pass_leads l _ _ _).emits

/-! ## The cuts of a rectangle, pass by pass -/

theorem idle_goBack (isLast : Bool) (z : α) (m : Machine α) :
    Machine.Leads (fun _ d => d.Idle) m (goBack tool l isLast z m) :=
  goBack_leads rfl rfl (fun _ _ => rfl) isLast

theorem idle_approach (m : Machine α) (entry : Point α) (depth : α) :
    Machine.Leads (fun _ d => d.Idle) m (m.approach tool entry depth) :=
  Machine.leads_approach rfl rfl fun _ _ => rfl

theorem emits_entering (m : Machine α) (k : Nat) :
    Machine.Emits m (r.entering tool l m k).2 := by
  induction k with
  | zero => exact (idle_approach m (l.entry 0) _).emits
  | succ k ih => exact (ih.trans (emits_leaving m k)).trans (idle_goBack false _ _).emits

/-- **The moves of a pass** are its way down and its legs. -/
theorem passMoves_eq (m : Machine α) (k : Nat) :
    r.passMoves tool l m k =
      r.sinkMoves tool l m k ++ (r.legs l (k == 0)).flatMap (r.cutMoves tool l m k) := by
  rw [passMoves, leaving, pass_eq, Machine.since_emitAll, (emits_entering m k).feeds_eq]
  rfl

/-- Before a pass only the passes before it have cut. -/
theorem filter_cuts_entering (m : Machine α) (k : Nat) :
    ((r.entering tool l m k).2.since m).filter Move.cuts =
      (List.range k).flatMap fun j => (r.passMoves tool l m j).filter Move.cuts := by
  induction k with
  | zero => exact (idle_approach m (l.entry 0) _).filter_cuts
  | succ k ih =>
    have hpass : Machine.Emits m (r.leaving tool l m k).2 :=
      (emits_entering m k).trans (emits_leaving m k)
    have hgap : Machine.Leads (fun _ d => d.Idle) (r.leaving tool l m k).2
        (r.entering tool l m (k + 1)).2 := idle_goBack false _ _
    rw [hpass.since_trans hgap, (emits_entering m k).since_trans (emits_leaving m k),
      List.filter_append, List.filter_append, hgap.filter_cuts, ih, List.append_nil,
      List.range_succ, List.flatMap_append, List.flatMap_singleton]
    rfl

/-- **Every cut of a rectangle belongs to a pass**, and they come in that order. -/
theorem filter_cuts_execute {m : Machine α}
    (hl : Layout.ofRectangle r m.position.point tool = .ok l) :
    ((r.execute tool m).machine.since m).filter Move.cuts =
      (List.range r.passes.repetitions.toNat).flatMap fun k =>
        (r.passMoves tool l m k).filter Move.cuts := by
  obtain ⟨n, hn⟩ := Passes.exists_succ (Layout.of_ofRectangle hl).1
  have hpasses : Machine.Emits m (r.leaving tool l m n).2 :=
    (emits_entering m n).trans (emits_leaving m n)
  -- behind the last pass there are the way back, the way up and the way home
  have hrest :
      Machine.Leads (fun _ d => d.Idle) (r.leaving tool l m n).2 (r.carryOut tool l m) := by
    have hback :
        Machine.Leads (fun _ d => d.Idle) (r.leaving tool l m n).2 (r.passed tool l m) := by
      rw [passed_eq hn]
      exact idle_goBack true _ _
    have hup : Machine.Leads (fun _ d => d.Idle) (r.passed tool l m) (r.pulledUp tool l m) :=
      Machine.leads_pullUp rfl _
    rw [carryOut_eq]
    split
    · exact (hback.trans hup).trans (Machine.Leads.emit rfl)
    · exact hback.trans hup
  have hdone : (r.execute tool m).machine = r.carryOut tool l m := by
    rw [execute, hl]
  rw [hdone, hpasses.since_trans hrest, (emits_entering m n).since_trans (emits_leaving m n),
    List.filter_append, List.filter_append, hrest.filter_cuts, filter_cuts_entering,
    List.append_nil, hn, List.range_succ, List.flatMap_append, List.flatMap_singleton]
  rfl

end Rectangle

end Toolpath
