import Mathlib.Analysis.Real.Sqrt
import Toolpath.Settings
import Toolpath.Proofs.Arc.Passes
import Toolpath.Proofs.Arc.Turning

/-!
# Paths in the plane

Which points of the plane a move passes over, and what a cutter clears on its way, in exact
arithmetic. A straight move passes over the line to where it goes. A circular one goes round its
center from where it starts, until it first comes to the direction in which it ends, so it goes all
the way round if it ends where it starts.

* `Point.Between`, `Point.OnArc`, `Move.Traces` — what a move passes over
* `PassesOver` — what a run passes over
* `Clears` — what lies within the radius of the cutter from that
* `Tool.of_fault?` — the sizes of a tool that is in its ranges
-/

namespace Toolpath

open Scalar RealScalar

/-! ## Lengths -/

namespace Offset

theorem length_le_iff {v : Offset ℝ} {r : ℝ} (hr : 0 ≤ r) :
    v.length ≤ r ↔ v.x ^ 2 + v.y ^ 2 ≤ r ^ 2 := Real.sqrt_le_left hr

end Offset

/-! ## What a move passes over -/

namespace Point

/-- On the straight line from one point to another. -/
def Between (p q x : Point ℝ) : Prop :=
  ∃ t, 0 ≤ t ∧ t ≤ 1 ∧ x = p.shift ((p.wayTo q).scale t t)

/-- On the way round a center from one point to another: the direction in which it ends has not been
passed. -/
def OnArc (start finish center : Point ℝ) (clockwise : Bool) (x : Point ℝ) : Prop :=
  ∃ angle, 0 ≤ angle ∧ x = start.turned center clockwise angle ∧
    ∀ a, 0 < a → a < angle → ¬finish.Towards center (start.turned center clockwise a)

theorem between_comm {p q x : Point ℝ} : p.Between q x ↔ q.Between p x := by
  have hback {p q : Point ℝ} (h : p.Between q x) : q.Between p x := by
    obtain ⟨t, ht, ht', rfl⟩ := h
    refine ⟨1 - t, by linarith, by linarith, ?_⟩
    simp only [shift, wayTo, Offset.scale]
    congr 1 <;> ring
  exact ⟨hback, hback⟩

end Point

/-- On the line from a point through others, one after the other. -/
def OnLine (p : Point ℝ) : List (Point ℝ) → Point ℝ → Prop
  | [], _ => False
  | q :: qs, x => p.Between q x ∨ OnLine q qs x

/-- A move from a position passes over a point. -/
def Move.Traces (p : Position ℝ) (d : Move ℝ) (x : Point ℝ) : Prop :=
  match d.kind with
  | .rapid | .linear => p.point.Between (p.after d).point x
  | .arcClockwise =>
    p.point.OnArc (p.after d).point (p.point.shift ⟨d.i.getD 0, d.j.getD 0⟩) true x
  | .arcCounterclockwise =>
    p.point.OnArc (p.after d).point (p.point.shift ⟨d.i.getD 0, d.j.getD 0⟩) false x

/-- Some moves of a run pass over a point. -/
def PassesOver (which : Move ℝ → Bool) : Position ℝ → List (Move ℝ) → Point ℝ → Prop
  | _, [], _ => False
  | p, d :: ds, x => which d = true ∧ d.Traces p x ∨ PassesOver which (p.after d) ds x

/-- A point lies within a radius of what some moves of a run pass over. -/
def Clears (which : Move ℝ → Bool) (radius : ℝ) (p : Position ℝ) (ds : List (Move ℝ))
    (y : Point ℝ) : Prop :=
  ∃ x, PassesOver which p ds x ∧ (x.wayTo y).length ≤ radius

variable {which : Move ℝ → Bool} {p : Position ℝ} {x : Point ℝ}

@[simp] theorem passesOver_nil : ¬PassesOver which p [] x := id

@[simp] theorem passesOver_cons {d : Move ℝ} {ds : List (Move ℝ)} :
    PassesOver which p (d :: ds) x ↔
      which d = true ∧ d.Traces p x ∨ PassesOver which (p.after d) ds x := Iff.rfl

theorem passesOver_append {ds es : List (Move ℝ)} :
    PassesOver which p (ds ++ es) x ↔
      PassesOver which p ds x ∨ PassesOver which (p.afterAll ds) es x := by
  induction ds generalizing p with
  | nil => simp
  | cons d ds ih =>
    rw [List.cons_append, passesOver_cons, passesOver_cons, ih, Position.afterAll_cons, or_assoc]

/-- A run without such moves passes over nothing. -/
theorem not_passesOver {ds : List (Move ℝ)} (h : ∀ d ∈ ds, which d = false) :
    ¬PassesOver which p ds x := by
  induction ds generalizing p with
  | nil => exact id
  | cons d ds ih =>
    rintro (⟨hd, -⟩ | hds)
    · rw [h d List.mem_cons_self] at hd
      cases hd
    · exact ih (fun e he => h e (List.mem_cons_of_mem _ he)) hds

/-- A circular cut passes over the way round its center. -/
theorem passesOver_arc {clockwise : Bool} {finish : Point ℝ} {center : Offset ℝ} {feed : ℝ} :
    PassesOver (fun d => d.kind.isArc) p [.arc clockwise finish center feed] x ↔
      p.point.OnArc finish (p.point.shift center) clockwise x := by
  rw [passesOver_cons, or_iff_left passesOver_nil]
  cases clockwise with
  | true => exact and_iff_right rfl
  | false => exact and_iff_right rfl

/-- Two runs pass over what each of them passes over. -/
theorem Machine.Leads.passesOver_trans {P Q : Position ℝ → Move ℝ → Prop} {m m' m'' : Machine ℝ}
    (h : Leads P m m') (h' : Leads Q m' m'') :
    PassesOver which m.position (m''.since m) x ↔
      PassesOver which m.position (m'.since m) x ∨
        PassesOver which m'.position (m''.since m') x := by
  rw [h.since_trans h', passesOver_append, ← h.position_eq]

theorem Machine.Leads.not_passesOver {m m' : Machine ℝ}
    (h : Leads (fun _ d => which d = false) m m') : ¬PassesOver which p (m'.since m) x :=
  Toolpath.not_passesOver h.along_since.forall

/-! ## The cutter -/

/-- A tool that is in its ranges has a cutter, and steps over by no more than its diameter. -/
theorem Tool.of_fault? {tool : Tool ℝ} (h : tool.fault? = none) :
    0 < tool.cutterDiameter ∧ 0 < tool.stepOver ∧ tool.stepOver ≤ tool.cutterDiameter := by
  unfold fault? at h
  by_cases hd : PositiveFinite tool.cutterDiameter
  · rw [if_neg (not_not.mpr hd)] at h
    by_cases ho : 0 ≤ tool.pocketOverlap ∧ tool.pocketOverlap < 100
    · have hpos : 0 < tool.cutterDiameter := by
        rw [← real_zero]
        exact hd.2
      have hstep : tool.stepOver = tool.cutterDiameter * (100 - tool.pocketOverlap) / 100 := rfl
      refine ⟨hpos, ?_, ?_⟩
      · rw [hstep]
        exact div_pos (mul_pos hpos (by linarith)) (by norm_num)
      · rw [hstep, div_le_iff₀ (by norm_num)]
        nlinarith
    · rw [real_zero] at h
      have hfault := (if_pos ho).symm.trans h
      cases hfault
  · rw [if_pos hd] at h
    cases h

/-- The standard tool, but for its overlap. -/
noncomputable def Tool.overlapping (overlap : ℝ) : Tool ℝ :=
  { Tool.standard with pocketOverlap := overlap }

theorem Tool.overlapping_fault? {overlap : ℝ} (hoverlap : 0 ≤ overlap ∧ overlap < 100) :
    (Tool.overlapping overlap).fault? = none := by
  have hdiameter : PositiveFinite (Tool.overlapping overlap).cutterDiameter := by
    refine ⟨rfl, ?_⟩
    rw [real_zero]
    show (0 : ℝ) < 0.25
    norm_num
  have hstep : 0 < (Tool.overlapping overlap).arcStep ∧
      (Tool.overlapping overlap).arcStep ≤ Real.pi / 2 := by
    show (0 : ℝ) < 0.05 ∧ (0.05 : ℝ) ≤ Real.pi / 2
    constructor
    · norm_num
    · linarith [Real.two_le_pi]
  unfold fault?
  rw [if_neg (not_not.mpr hdiameter), real_zero]
  exact (if_neg (not_not.mpr hoverlap)).trans
    ((if_neg (not_not.mpr rfl)).trans (if_neg (not_not.mpr hstep)))

theorem Tool.overlapping_radius (overlap : ℝ) :
    (Tool.overlapping overlap).cutterDiameter / 2 = 0.125 := by
  show (0.25 : ℝ) / 2 = 0.125
  norm_num

theorem Tool.standard_radius : (Tool.standard : Tool ℝ).cutterDiameter / 2 = 0.125 :=
  overlapping_radius 10

theorem Tool.standard_fault? : (Tool.standard : Tool ℝ).fault? = none := by
  have hoverlap : (0 : ℝ) ≤ 10 ∧ (10 : ℝ) < 100 := by norm_num
  exact overlapping_fault? hoverlap

end Toolpath
