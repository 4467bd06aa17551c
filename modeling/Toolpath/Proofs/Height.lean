import Toolpath.Proofs.OrderedScalar
import Toolpath.Proofs.Trail

/-!
# Heights

Where the operations of a machine that go to a height end, and which of them go up. Each of them
stays where it is if the tool is there already, so the height is the one asked for or one that
compares equal.

* `Machine.retract_z`, `Machine.pullUp_z`, `Machine.approach_z` — where they end
* `Rises` — a rapid move along the Z axis goes up
* `Machine.rises_approach`, `Machine.rises_retract_iff` — an approach always does, a retract only
  from the safe height or below
-/

namespace Toolpath

namespace Machine

variable {α : Type} [Scalar α]

/-- Going to a height unless the tool is there ends at that height. -/
theorem settle_z (m : Machine α) {d : Move α} {z : α} (hd : (m.position.after d).z = z) :
    Alike (if m.position.z != z then m.emit d else m).position.z z := by
  by_cases h : (m.position.z != z) = true
  · rw [if_pos h]
    exact Or.inl hd
  · rw [if_neg h]
    exact Or.inr (by simpa [bne] using h)

theorem retract_z (m : Machine α) (safeZ : α) : Alike (m.retract safeZ).position.z safeZ :=
  m.settle_z rfl

theorem lowered_z {m : Machine α} (hk : m.keepDepth = false) (depth : α) :
    Alike (m.lowered depth).position.z depth := by
  unfold lowered
  rw [hk, Bool.not_false, Bool.and_true]
  exact m.settle_z rfl

/-- Pulling up ends at the height from before, unless the tool is to stay down. -/
theorem pullUp_z (m : Machine α) (stayDown : Bool) (z : α) :
    Alike (m.pullUp stayDown z).position.z (if stayDown then m.position.z else z) := by
  unfold pullUp
  cases stayDown with
  | true => exact Or.inl rfl
  | false => exact m.settle_z rfl

/-- An approach to the depth where the tool is ends at that depth. -/
theorem approach_z {m : Machine α} (hk : m.keepDepth = false) (tool : Tool α) (entry : Point α) :
    Alike (m.approach tool entry m.position.z).position.z m.position.z := by
  rw [approach_eq]
  split
  · exact Or.inl rfl
  · have hk' : ((m.raised tool).rapidXY entry).keepDepth = false :=
      (m.keepDepth_raised tool).trans hk
    exact lowered_z hk' _

/-- So does one that keeps its depth. -/
theorem approach_there_z (m : Machine α) (tool : Tool α) (entry : Point α) :
    Alike (m.approach tool entry m.position.z).position.z m.position.z := by
  cases hk : m.keepDepth with
  | false => exact approach_z hk tool entry
  | true =>
    have hstay : (m.raised tool).position.z = m.position.z := by
      rw [raised, if_neg fun h => Bool.noConfusion (hk.symm.trans h.2)]
    have hkeep : ((m.raised tool).rapidXY entry).keepDepth = true :=
      (m.keepDepth_raised tool).trans hk
    rw [approach_eq, lowered, hkeep, Bool.not_true, Bool.and_false, if_neg Bool.false_ne_true]
    split
    · exact Or.inl rfl
    · exact Or.inl hstay

end Machine

/-! ## Rising -/

/-- A rapid move along the Z axis alone does not go down. -/
def Rises {α : Type} [Scalar α] (p : Position α) (d : Move α) : Prop :=
  d.kind = .rapid → d.isZOnly = true → p.z ≤ (p.after d).z

section

variable {α : Type} [Scalar α]

theorem Rises.of_kind {d : Move α} (h : d.kind ≠ .rapid) (p : Position α) : Rises p d :=
  fun hk => absurd hk h

theorem rises_linearZ (p : Position α) (z feed : α) : Rises p (.linearZ z feed) := by
  intro hk
  cases hk

theorem rises_rapidXY (p : Position α) (q : Point α) : Rises p (.rapidXY q) := by
  intro _ hz
  cases hz

theorem rises_rapidZ {p : Position α} {z : α} : Rises p (.rapidZ z) ↔ p.z ≤ z :=
  ⟨fun h => h rfl rfl, fun h _ _ => h⟩

namespace Machine

variable [OrderedScalar α]

/-- An approach does not go up from above the safe height, so it never goes down to it. -/
theorem rises_approach (m : Machine α) (tool : Tool α) (entry : Point α) (depth : α) :
    Leads Rises m (m.approach tool entry depth) := by
  have hup : Leads Rises m (m.raised tool) := by
    unfold raised
    by_cases h : m.position.z < tool.safeZ ∧ m.keepDepth = false
    · rw [if_pos h]
      exact Leads.emit (rises_rapidZ.mpr (OrderedScalar.lt_iff.mp h.1).1)
    · rw [if_neg h]
      exact Leads.refl m
  have htravel : Leads Rises (m.raised tool) ((m.raised tool).rapidXY entry) :=
    Leads.emit (rises_rapidXY _ entry)
  have hdown : Leads Rises ((m.raised tool).rapidXY entry)
      (((m.raised tool).rapidXY entry).lowered depth) :=
    leads_lowered (rises_linearZ _ depth _)
  rw [approach_eq]
  split
  · exact Leads.refl m
  · exact (hup.trans htravel).trans hdown

/-- **A retract goes up** exactly from the safe height or below. -/
theorem rises_retract_iff (m : Machine α) (safeZ : α) :
    Along Rises m.position ((m.retract safeZ).since m) ↔ m.position.z ≤ safeZ := by
  unfold retract
  by_cases h : (m.position.z != safeZ) = true
  · have hsince : (m.rapidZ safeZ).since m = [.rapidZ safeZ] := since_emitAll m [_]
    rw [if_pos h, hsince, along_cons, rises_rapidZ]
    exact and_iff_left trivial
  · have hthere : (m.position.z == safeZ) = true := by simpa [bne] using h
    rw [if_neg h]
    exact iff_of_true (Leads.refl m).along_since (OrderedScalar.beq_iff.mp hthere).1

/-- Going back at a height goes up exactly from there or below. -/
theorem rises_back_iff (m : Machine α) (safeZ : α) (q : Point α) :
    Along Rises m.position (((m.retract safeZ).rapidXY q).since m) ↔ m.position.z ≤ safeZ := by
  have htravel : Leads Rises (m.retract safeZ) ((m.retract safeZ).rapidXY q) :=
    Leads.emit (rises_rapidXY _ q)
  rw [(m.lifts_retract safeZ).along_since_trans htravel, rises_retract_iff]
  exact and_iff_left htravel.along_since

end Machine

end

end Toolpath
