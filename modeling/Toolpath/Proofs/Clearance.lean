import Toolpath.Proofs.Height

/-!
# Clearance

A rapid move in the plane is safe at the safe height or above. Moves along the Z axis alone never
travel, and an approach rises before it does.

* `ClearOf` — a move that is safe in this sense
* `Machine.clear_approach` — an approach is safe, from wherever the tool is
-/

namespace Toolpath

open Scalar

variable {α : Type}

/-- A rapid move with a word for the plane. -/
def Move.travels (d : Move α) : Bool := d.kind == .rapid && (d.x.isSome || d.y.isSome)

variable [Scalar α]

/-- Travels only at a height or above. -/
def ClearOf (safeZ : α) (p : Position α) (d : Move α) : Prop := d.travels = true → safeZ ≤ p.z

/-- A move that does not travel is safe at any height. -/
theorem ClearOf.of_still {d : Move α} (h : d.travels = false) (safeZ : α) (p : Position α) :
    ClearOf safeZ p d := by
  intro htravels
  rw [h] at htravels
  cases htravels

omit [Scalar α] in
theorem Move.travels_of_isZOnly {d : Move α} (h : d.isZOnly = true) : d.travels = false := by
  unfold isZOnly at h
  cases hx : d.x <;> cases hy : d.y <;> simp [hx, hy, travels] at h ⊢

namespace Machine

theorem Lifts.clear {m m' : Machine α} (h : Lifts m m') (safeZ : α) :
    Leads (ClearOf safeZ) m m' :=
  h.mono fun p _ hd => ClearOf.of_still (Move.travels_of_isZOnly hd) safeZ p

variable [OrderedScalar α] {m : Machine α} {tool : Tool α}

/-- A tool that does not keep its depth has risen to the safe height or above. -/
theorem safe_le_raised (hk : m.keepDepth = false) (hz : isFinite m.position.z = true)
    (hs : isFinite tool.safeZ = true) : tool.safeZ ≤ (m.raised tool).position.z := by
  unfold raised
  by_cases hlow : m.position.z < tool.safeZ
  · rw [if_pos ⟨hlow, hk⟩]
    exact OrderedScalar.le_refl hs
  · rw [if_neg fun h => hlow h.1]
    exact (OrderedScalar.not_lt_iff hz hs).mp hlow

/-- **The approach is safe**, from wherever the tool is. -/
theorem clear_approach (hk : m.keepDepth = false) (hz : isFinite m.position.z = true)
    (hs : isFinite tool.safeZ = true) (entry : Point α) (depth : α) :
    Leads (ClearOf tool.safeZ) m (m.approach tool entry depth) :=
  leads_approach (ClearOf.of_still rfl _ _) (fun _ => safe_le_raised hk hz hs)
    fun _ _ => ClearOf.of_still rfl _ _

/-- A tool that has gone to the safe height is safe there. -/
theorem safe_le_retract (hs : isFinite tool.safeZ = true) (m : Machine α) :
    tool.safeZ ≤ (m.retract tool.safeZ).position.z :=
  (m.retract_z tool.safeZ).le_iff.mpr (OrderedScalar.le_refl hs)

end Machine

end Toolpath
