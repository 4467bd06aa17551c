import Toolpath.Proofs.Rectangle.Travel

/-!
# The way back over a rectangle

After a pass that does not end over the start corner the tool goes back there at the safe height,
after the last pass too. It goes up if the pass has ended at the safe height or below, and down to
the safe height if it has ended above.

* `Rectangle.rises_goBack_iff` — one way back
* `Rectangle.rises_passed_iff` — all of them, by the depths at which the passes end
-/

namespace Toolpath

open Scalar Machine

variable {α : Type} [Scalar α]

namespace Rectangle

variable (r : Rectangle α)

/-- The depths at which a number of passes from a depth end. -/
def passEnds : Nat → Bool → α → List α
  | 0, _, _ => []
  | n + 1, isFirst, z => r.passEnd isFirst z :: passEnds n false (r.deeper z)

/-- The depths before the ways back of a rectangle that is cut from a height. -/
def returnDepths (l : Layout α) (start : α) : List α :=
  if (l.entry (l.laps - 1)).Near (l.entry 0) then []
  else r.passEnds r.passes.repetitions.toNat true (r.surface start)

theorem rises_pass (l : Layout α) (isFirst : Bool) (z : α) (m : Machine α) :
    Leads Rises m (r.pass l isFirst z m).2 := by
  refine (r.pass_leads l isFirst z m).mono fun p d hd => Rises.of_kind ?_ p
  intro hk
  cases (show d.kind = .linear from hd).symm.trans hk

variable [OrderedScalar α] {l : Layout α}

theorem rises_goBack_iff (tool : Tool α) (l : Layout α) (isLast : Bool) (z : α) (m : Machine α) :
    Along Rises m.position ((goBack tool l isLast z m).since m) ↔
      (¬m.position.Over (l.entry 0) → m.position.z ≤ tool.safeZ) := by
  unfold goBack
  by_cases hover : m.position.Over (l.entry 0)
  · rw [if_pos hover]
    exact iff_of_true (Leads.refl m).along_since fun h => absurd hover h
  · let back := (m.retract tool.safeZ).rapidXY (l.entry 0)
    have hback : Along Rises m.position (back.since m) ↔ m.position.z ≤ tool.safeZ :=
      m.rises_back_iff tool.safeZ (l.entry 0)
    have hemits : Emits m back := (m.lifts_retract tool.safeZ).emits.trans (emits_emit _ _)
    have hdown : Leads Rises back (back.plungeTo z) := Leads.emit (rises_linearZ _ _ _)
    rw [if_neg hover]
    cases isLast with
    | true => exact hback.trans ⟨fun h _ => h, fun h => h hover⟩
    | false =>
      show Along Rises m.position ((back.plungeTo z).since m) ↔ _
      rw [hemits.along_since_trans hdown, and_iff_left hdown.along_since, hback]
      exact ⟨fun h _ => h, fun h => h hover⟩

/-- **The ways back between passes**, and behind the last one. A pass that does not go down has to
start at its depth, or else nothing is known of where it ends. -/
theorem rises_repeatPass_iff (tool : Tool α) (h : l.Proper) (n : Nat) (isFirst : Bool) {z : α}
    {m : Machine α} (hm : n ≠ 0 → ¬(r.passes.plunge != 0) = true → Alike m.position.z z) :
    Along Rises m.position ((r.repeatPass tool l n isFirst z m).since m) ↔
      (¬(l.entry (l.laps - 1)).Near (l.entry 0) →
        ∀ e ∈ r.passEnds n isFirst z, e ≤ tool.safeZ) := by
  induction n generalizing isFirst z m with
  | zero =>
    exact iff_of_true (Leads.refl m).along_since fun _ e he => absurd he List.not_mem_nil
  | succ n ih =>
    let m' := (r.pass l isFirst z m).2
    let back := goBack tool l (n == 0) (r.pass l isFirst z m).1 m'
    have hz : Alike m'.position.z (r.passEnd isFirst z) := r.pass_z h isFirst (hm n.succ_ne_zero)
    have hover : m'.position.Over (l.entry 0) ↔ (l.entry (l.laps - 1)).Near (l.entry 0) := by
      rw [Position.Over, r.pass_ends h]
    have hpass := r.rises_pass l isFirst z m
    have hback : Emits m' back := goBack_leads trivial trivial (fun _ _ => trivial) _
    have hrest : Emits back (r.repeatPass tool l n false (r.pass l isFirst z m).1 back) :=
      r.repeatPass_leads tool l (fun _ _ _ => trivial)
        (fun isLast _ _ => goBack_leads trivial trivial (fun _ _ => trivial) isLast) n false _ _
    have hnext : n ≠ 0 → ¬(r.passes.plunge != 0) = true →
        Alike back.position.z (r.pass l isFirst z m).1 := by
      intro hn hp
      have hlast : (n == 0) = false := beq_false_of_ne hn
      show Alike (goBack tool l (n == 0) _ m').position.z _
      rw [hlast]
      apply goBack_next_z
      rw [r.pass_fst, deeper, if_neg hp]
      rwa [passEnd, if_neg hp] at hz
    show Along Rises m.position
      ((r.repeatPass tool l n false (r.pass l isFirst z m).1 back).since m) ↔ _
    rw [(hpass.emits.trans hback).along_since_trans hrest, hpass.along_since_trans hback,
      and_iff_right hpass.along_since, rises_goBack_iff, ih false hnext, hover, hz.le_iff_left,
      passEnds, List.forall_mem_cons, r.pass_fst]
    exact ⟨fun hboth hfar => ⟨hboth.1 hfar, hboth.2 hfar⟩,
      fun hall => ⟨fun hfar => (hall hfar).1, fun hfar => (hall hfar).2⟩⟩

/-- **All ways back** over a rectangle go up exactly if the passes before them end at the safe
height or below. -/
theorem rises_passed_iff (tool : Tool α) (h : l.Proper) (m : Machine α) :
    Along Rises (m.approach tool (l.entry 0) (r.surface m.position.z)).position
        ((r.passed tool l m).since (m.approach tool (l.entry 0) (r.surface m.position.z))) ↔
      ∀ e ∈ r.returnDepths l m.position.z, e ≤ tool.safeZ := by
  have hstart : r.passes.repetitions.toNat ≠ 0 → ¬(r.passes.plunge != 0) = true →
      Alike (m.approach tool (l.entry 0) (r.surface m.position.z)).position.z
        (r.surface m.position.z) := by
    intro _ hp
    have hsurface : r.surface m.position.z = m.position.z := by
      rw [surface, if_neg fun hboth => hp (Bool.and_eq_true_iff.mp hboth).1]
    rw [hsurface]
    exact approach_there_z m tool _
  refine (r.rises_repeatPass_iff tool h _ true hstart).trans ?_
  unfold returnDepths
  split
  · exact iff_of_true (fun hfar => absurd ‹_› hfar) fun e he => absurd he List.not_mem_nil
  · exact ⟨fun hall => hall ‹_›, fun hall _ => hall⟩

end Rectangle

end Toolpath
