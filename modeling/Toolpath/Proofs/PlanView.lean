import Toolpath.Job
import Toolpath.Proofs.Trail

/-!
# Plan view

A machine seen from above: over which point it stands, its transforms, and what it has drawn. Height
and speed do not show, and neither do moves along the Z axis. What a machine draws next depends on
its plan view alone, so two machines that look the same go on looking the same.

* `Move.stroke?`, `strokes` — what shows of a move, and of a run of moves
* `Machine.planView`, and how it follows a move (`Machine.planView_emit`)
* `Machine.Lifts.planView_eq` — moves along the Z axis do not show
* `Machine.approach_congr` — machines that look the same look the same after an approach
-/

namespace Toolpath

open Scalar

/-- What shows of a move from above. -/
structure Stroke (α : Type) where
  kind : MoveKind
  x : Option α
  y : Option α
  i : Option α
  j : Option α
  deriving DecidableEq, Repr

/-- A machine from above. -/
structure PlanView (α : Type) where
  point : Point α
  transforms : Transforms α
  strokes : List (Stroke α)
  deriving DecidableEq, Repr

variable {α : Type}

/-! ## Strokes -/

/-- The stroke of a move that has a word for the plane. -/
def Move.stroke? (d : Move α) : Option (Stroke α) :=
  if d.x.isSome || d.y.isSome then some ⟨d.kind, d.x, d.y, d.i, d.j⟩ else none

/-- What a run of moves draws. -/
def strokes (ds : List (Move α)) : List (Stroke α) := ds.filterMap Move.stroke?

@[simp] theorem strokes_append (ds es : List (Move α)) :
    strokes (ds ++ es) = strokes ds ++ strokes es := List.filterMap_append

theorem Move.stroke?_of_isZOnly {d : Move α} (h : d.isZOnly = true) : d.stroke? = none := by
  unfold isZOnly at h
  unfold stroke?
  cases hx : d.x <;> cases hy : d.y <;> simp [hx, hy] at h ⊢

/-- A plan view with one more stroke, if there is one. -/
def PlanView.draw (v : PlanView α) : Option (Stroke α) → PlanView α
  | none => v
  | some s =>
    { v with point := ⟨s.x.getD v.point.x, s.y.getD v.point.y⟩, strokes := v.strokes ++ [s] }

/-! ## Machines from above -/

namespace Machine

/-- What shows of a machine from above. -/
def planView (m : Machine α) : PlanView α :=
  ⟨m.position.point, m.transforms, Toolpath.strokes m.queue.toList⟩

/-- **A move adds its stroke to the plan view.** -/
theorem planView_emit (m : Machine α) (d : Move α) :
    (m.emit d).planView = m.planView.draw d.stroke? := by
  have hqueue : (m.emit d).queue.toList = m.queue.toList ++ [d] := Array.toList_push
  unfold planView
  rw [hqueue, strokes_append]
  obtain ⟨kind, x, y, z, i, j, feed⟩ := d
  cases x <;> cases y <;> simp [emit, Position.after, Position.point, Move.stroke?, strokes,
    PlanView.draw]

theorem planView_emitAll (m : Machine α) (ds : List (Move α)) :
    (m.emitAll ds).planView = (ds.map Move.stroke?).foldl PlanView.draw m.planView := by
  induction ds generalizing m with
  | nil => rfl
  | cons d ds ih => rw [emitAll_cons, ih, planView_emit, List.map_cons, List.foldl_cons]

variable {m n : Machine α}

theorem point_congr (h : m.planView = n.planView) : m.position.point = n.position.point :=
  congrArg PlanView.point h

theorem emit_congr (h : m.planView = n.planView) {d e : Move α} (hd : d.stroke? = e.stroke?) :
    (m.emit d).planView = (n.emit e).planView := by
  rw [planView_emit, planView_emit, h, hd]

theorem emitAll_congr (h : m.planView = n.planView) {ds es : List (Move α)}
    (hds : ds.map Move.stroke? = es.map Move.stroke?) :
    (m.emitAll ds).planView = (n.emitAll es).planView := by
  rw [planView_emitAll, planView_emitAll, h, hds]

theorem foldl_congr {β : Type} {f g : Machine α → β → Machine α}
    (hfg : ∀ m n b, m.planView = n.planView → (f m b).planView = (g n b).planView) (bs : List β)
    (h : m.planView = n.planView) : (bs.foldl f m).planView = (bs.foldl g n).planView := by
  induction bs generalizing m n with
  | nil => exact h
  | cons b bs ih => exact ih (hfg m n b h)

theorem rapidXY_congr (h : m.planView = n.planView) (p : Point α) :
    (m.rapidXY p).planView = (n.rapidXY p).planView := emit_congr h rfl

/-- **Moves along the Z axis do not show.** -/
theorem Lifts.planView_eq {m' : Machine α} (h : Lifts m m') : m'.planView = m.planView := by
  obtain ⟨ds, rfl, hds⟩ := h
  have hforall := hds.forall
  clear hds
  induction ds generalizing m with
  | nil => rfl
  | cons d ds ih =>
    have hd := Move.stroke?_of_isZOnly (hforall d List.mem_cons_self)
    rw [emitAll_cons, ih fun e he => hforall e (List.mem_cons_of_mem _ he), planView_emit, hd]
    rfl

/-- Machines that look the same look the same after moves along the Z axis, whatever these are. -/
theorem Lifts.congr (h : m.planView = n.planView) {m' n' : Machine α} (hm : Lifts m m')
    (hn : Lifts n n') : m'.planView = n'.planView := by
  rw [hm.planView_eq, hn.planView_eq, h]

variable [Scalar α]

/-! ## Operations of a machine -/

theorem lineTo_congr (h : m.planView = n.planView) (p : Point α) :
    (m.lineTo p).planView = (n.lineTo p).planView := emit_congr h rfl

omit [Scalar α] in
theorem rapidZ_congr (h : m.planView = n.planView) (z w : α) :
    (m.rapidZ z).planView = (n.rapidZ w).planView :=
  Lifts.congr h (Leads.emit rfl) (Leads.emit rfl)

theorem plungeTo_congr (h : m.planView = n.planView) (z w : α) :
    (m.plungeTo z).planView = (n.plungeTo w).planView :=
  Lifts.congr h (Leads.emit rfl) (Leads.emit rfl)

theorem retract_congr (h : m.planView = n.planView) (safeZ safeZ' : α) :
    (m.retract safeZ).planView = (n.retract safeZ').planView :=
  Lifts.congr h (lifts_retract m safeZ) (lifts_retract n safeZ')

theorem pullUp_congr (h : m.planView = n.planView) (stayDown stayDown' : Bool) (z w : α) :
    (m.pullUp stayDown z).planView = (n.pullUp stayDown' w).planView :=
  Lifts.congr h (lifts_pullUp m stayDown z) (lifts_pullUp n stayDown' w)

theorem over_congr (h : m.planView = n.planView) (q : Point α) :
    m.position.Over q ↔ n.position.Over q := by
  unfold Position.Over
  rw [point_congr h]

/-- **An approach looks the same from any height**, whether the tool keeps its depth or not. -/
theorem approach_congr (h : m.planView = n.planView) (tool tool' : Tool α) (entry : Point α)
    (depth depth' : α) :
    (m.approach tool entry depth).planView = (n.approach tool' entry depth').planView := by
  have hover := over_congr h entry
  rw [approach_eq, approach_eq]
  by_cases hm : m.position.Over entry
  · rw [if_pos hm, if_pos (hover.mp hm)]
    exact h
  · rw [if_neg hm, if_neg fun hn => hm (hover.mpr hn)]
    -- both rise or stay, travel to the same point, and go down or stay
    have hraised := Lifts.congr h (lifts_raised m tool) (lifts_raised n tool')
    exact Lifts.congr (rapidXY_congr hraised entry) (lifts_lowered _ depth) (lifts_lowered _ depth')

end Machine

/-- Two outcomes look the same: the same rejection, if there is one, and machines that look the
same. -/
structure Outcome.SameShow {ρ : Type} (r s : Outcome α ρ) : Prop where
  rejection_eq : r.rejection = s.rejection
  planView_eq : r.machine.planView = s.machine.planView

/-! ## What does not show -/

/-- How the tool gets down to a shape and up from it. -/
structure Passes.Flags where
  stayDown : Bool
  fromZero : Bool
  deriving DecidableEq, Repr

/-- The same passes with other flags. -/
def Passes.withFlags (p : Passes α) (f : Passes.Flags) : Passes α :=
  { p with stayDown := f.stayDown, fromZero := f.fromZero }

/-- The same tool with another safe height. -/
def Tool.withSafeZ (t : Tool α) (safeZ : α) : Tool α := { t with safeZ := safeZ }

end Toolpath
