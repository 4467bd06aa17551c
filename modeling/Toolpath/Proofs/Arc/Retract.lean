import Toolpath.Proofs.Arc.Depth

/-!
# The way back after a pass

Between its passes an order goes back over its start at the safe height: after each pass of a
pocket, and behind a pass of an open arc when another pass or a bottom follows. The way back begins
where the cuts of the pass have ended, so it goes up if that is at the safe height or below, and
down to the safe height if it is above.

* `ArcPlan.rises_pass_iff`, `ArcPlan.rises_between_iff`, `ArcPlan.rises_bottom_iff` — one way back
* `ArcPlan.rises_cutOut_iff` — all of them, by where the tool is
* `ArcPlan.carved_z` — where that is, in exact arithmetic
* `ArcPlan.rises_cutOut_iff_depths` — all of them, by the depths that the order counts
-/

namespace Toolpath

open Scalar

theorem Move.kind_ne_rapid_of_cuts {α : Type} {d : Move α} (h : d.cuts = true) :
    d.kind ≠ .rapid := by
  intro hk
  rw [Move.cuts, hk] at h
  cases h

/-- A run that keeps a depth ends there, or where it started. -/
theorem Along.keeps_end {α : Type} {z : α} {ds : List (Move α)} {p : Position α}
    (h : Along (fun _ d => d.Keeps z) p ds) :
    (p.afterAll ds).z = p.z ∨ (p.afterAll ds).z = z := by
  induction ds generalizing p with
  | nil => exact Or.inl rfl
  | cons d ds ih =>
    rw [Position.afterAll_cons]
    rcases ih h.2 with hend | hend
    · rw [hend]
      rcases h.1 with hz | hz <;> simp [Position.after, hz]
    · exact Or.inr hend

namespace ArcPlan

section

variable {α : Type} [Scalar α] (p : ArcPlan α)

/-! ## Where the cuts of a pass end -/

/-- The tool goes back after a pass that another one follows. -/
def Returns : Prop := p.order.cut = .pocket ∨ ¬p.Closed

instance : Decidable p.Returns :=
  inferInstanceAs (Decidable (p.order.cut = .pocket ∨ ¬p.Closed))

/-- How often the tool goes back. -/
def returnCount : ℕ :=
  if p.Returns then
    match p.order.cut with
    | .pocket | .spiralWithBottom => p.order.passes.repetitions.toNat
    | .profile | .spiral => p.order.passes.repetitions.toNat - 1
  else 0

/-- The machine at the end of the cuts of a pass. A pocket has not been left then. -/
def carved (z : α) (m : Machine α) : Machine α :=
  if p.order.cut = .pocket then p.levelCuts (p.sink z m).1 (p.sink z m).2 else (p.pass z m).2

/-- The machine at the end of the cuts of a pass with a number, counted from zero. -/
def carvedAt (k : ℕ) (m : Machine α) : Machine α :=
  p.carved (p.entering k m).1 (p.entering k m).2

theorem pass_of_pocket (h : p.order.cut = .pocket) (z : α) (m : Machine α) :
    (p.pass z m).2 = ((p.carved z m).rapidZ p.tool.safeZ).rapidXY p.origin := by
  unfold pass carved levelCuts
  rw [h]
  rfl

theorem carved_of_ne_pocket (h : p.order.cut ≠ .pocket) (z : α) (m : Machine α) :
    p.carved z m = (p.pass z m).2 := if_neg h

theorem carved_of_level (h : p.order.cut.isSpiral = false) (z : α) (m : Machine α) :
    p.carved z m = p.levelCuts (p.sink z m).1 (p.sink z m).2 := by
  unfold carved
  rcases CircleCut.level_cases h with hc | hc
  · have hne : p.order.cut ≠ .pocket := by
      rw [hc]
      decide
    rw [if_neg hne, levelCuts, if_neg hne, pass, hc]
  · rw [if_pos hc]

theorem carved_of_spiral (h : p.order.cut.isSpiral = true) (z : α) (m : Machine α) :
    p.carved z m = p.follow p.outline (.ramp z p.order.passes.plunge) m := by
  rw [p.carved_of_ne_pocket (CircleCut.ne_pocket h), p.pass_of_spiral h]

/-- The machine when an order has been cut, before the tool is pulled up. -/
def cutOut (m : Machine α) : Machine α := p.bottom (p.finished m).1 (p.finished m).2

theorem emits_cutOut (m : Machine α) : Machine.Emits (p.opened m).2 (p.cutOut m) :=
  (p.emits_passes _ _ _).trans (p.emits_bottom _ _)

/-! ## One way back -/

theorem leads_rises_of_cuts {m m' : Machine α}
    (h : Machine.Leads (fun _ d => d.cuts = true) m m') : Machine.Leads Rises m m' :=
  h.mono fun p _ hd => Rises.of_kind (Move.kind_ne_rapid_of_cuts hd) p

theorem rises_sink (z : α) (m : Machine α) : Machine.Leads Rises m (p.sink z m).2 :=
  p.leads_sink (rises_linearZ _ _ _)

theorem rises_carved (z : α) (m : Machine α) : Machine.Leads Rises m (p.carved z m) := by
  cases hs : p.order.cut.isSpiral with
  | true =>
    rw [p.carved_of_spiral hs]
    exact leads_rises_of_cuts (p.follow_leads _ _ m)
  | false =>
    have hcuts := (p.levelCuts_level (p.sink z m).1 (p.sink z m).2).mono fun _ _ hd => hd.1
    rw [p.carved_of_level hs]
    exact (p.rises_sink z m).trans (leads_rises_of_cuts hcuts)

theorem rises_pass_iff (z : α) (m : Machine α) :
    Along Rises m.position ((p.pass z m).2.since m) ↔
      (p.order.cut = .pocket → (p.carved z m).position.z ≤ p.tool.safeZ) := by
  have hcarved := p.rises_carved z m
  by_cases hcut : p.order.cut = .pocket
  · let m' := p.carved z m
    have hleave : (((m'.rapidZ p.tool.safeZ).rapidXY p.origin)).since m' =
        [.rapidZ p.tool.safeZ, .rapidXY p.origin] := Machine.since_emitAll m' [_, _]
    have hemits : Machine.Emits m' ((m'.rapidZ p.tool.safeZ).rapidXY p.origin) :=
      (Machine.emits_emit m' _).trans (Machine.emits_emit _ _)
    rw [p.pass_of_pocket hcut, hcarved.along_since_trans hemits, hleave, along_cons, along_cons,
      rises_rapidZ]
    constructor
    · intro h _
      exact h.2.1
    · intro h
      exact ⟨hcarved.along_since, h hcut, rises_rapidXY _ _, trivial⟩
  · rw [← p.carved_of_ne_pocket hcut]
    exact iff_of_true hcarved.along_since fun h => absurd h hcut

variable [OrderedScalar α]

theorem rises_goBack_iff (m : Machine α) :
    Along Rises m.position ((p.goBack m).since m) ↔ m.position.z ≤ p.tool.safeZ :=
  m.rises_back_iff p.tool.safeZ p.origin

theorem rises_goBack_plunge_iff (z : α) (m : Machine α) :
    Along Rises m.position (((p.goBack m).plungeTo z).since m) ↔
      m.position.z ≤ p.tool.safeZ := by
  have hdown : Machine.Leads Rises (p.goBack m) ((p.goBack m).plungeTo z) :=
    Machine.Leads.emit (rises_linearZ _ _ _)
  rw [(p.idle_goBack m).along_since_trans hdown, rises_goBack_iff]
  exact and_iff_left hdown.along_since

theorem rises_between_iff (z : α) (m : Machine α) :
    Along Rises m.position ((p.between z m).since m) ↔
      (p.order.cut ≠ .pocket → ¬p.Closed → m.position.z ≤ p.tool.safeZ) := by
  unfold between
  by_cases hthere : p.order.cut = .pocket ∨ p.Closed
  · rw [if_pos hthere]
    refine iff_of_true (Machine.Leads.refl m).along_since fun hcut hopen => ?_
    exact absurd hthere (not_or.mpr ⟨hcut, hopen⟩)
  · obtain ⟨hcut, hopen⟩ := not_or.mp hthere
    rw [if_neg hthere]
    have hiff : Along Rises m.position
        ((if p.order.cut.isSpiral then (p.goBack m).plungeTo z else p.goBack m).since m) ↔
          m.position.z ≤ p.tool.safeZ := by
      cases p.order.cut.isSpiral with
      | true => exact p.rises_goBack_plunge_iff z m
      | false => exact p.rises_goBack_iff m
    exact hiff.trans ⟨fun h _ _ => h, fun h => h hcut hopen⟩

/-- **A pass and the way to the next one:** if the tool goes back, it does so from where the cuts of
the pass end. -/
theorem rises_round_iff (z : α) (m : Machine α) :
    Along Rises m.position ((p.between (p.pass z m).1 (p.pass z m).2).since m) ↔
      (p.Returns → (p.carved z m).position.z ≤ p.tool.safeZ) := by
  have hbetween := (p.idle_between (p.pass z m).1 (p.pass z m).2).emits
  rw [(p.emits_pass z m).along_since_trans hbetween, rises_pass_iff, rises_between_iff]
  by_cases hcut : p.order.cut = .pocket
  · exact ⟨fun h _ => h.1 hcut, fun h => ⟨fun _ => h (Or.inl hcut), fun hne => absurd hcut hne⟩⟩
  · rw [← p.carved_of_ne_pocket hcut]
    constructor
    · rintro ⟨-, h⟩ (hpocket | hopen)
      · exact absurd hpocket hcut
      · exact h hcut hopen
    · exact fun h => ⟨fun hpocket => absurd hpocket hcut, fun _ hopen => h (Or.inr hopen)⟩

theorem rises_bottom_iff (z : α) (m : Machine α) :
    Along Rises m.position ((p.bottom z m).since m) ↔
      (p.order.cut = .spiralWithBottom → ¬p.Closed → m.position.z ≤ p.tool.safeZ) := by
  have hcuts := (p.bottom_level z m).mono fun _ _ hd => hd.1
  rw [(p.idle_aboveBottom z m).along_since_trans hcuts,
    and_iff_left (leads_rises_of_cuts hcuts).along_since]
  unfold aboveBottom
  by_cases hcut : p.order.cut = .spiralWithBottom
  · rw [if_pos hcut]
    by_cases hclosed : p.Closed
    · rw [if_pos hclosed]
      exact iff_of_true (Machine.Leads.refl m).along_since fun _ hopen => absurd hclosed hopen
    · rw [if_neg hclosed, rises_goBack_plunge_iff]
      exact ⟨fun h _ _ => h, fun h => h hcut hclosed⟩
  · rw [if_neg hcut]
    exact iff_of_true (Machine.Leads.refl m).along_since fun h => absurd h hcut

/-! ## All of them -/

/-- Before a pass the tool has gone back after each pass before it. -/
theorem rises_entering_iff (k : ℕ) (m : Machine α) :
    Along Rises (p.opened m).2.position ((p.entering k m).2.since (p.opened m).2) ↔
      ∀ j < k, p.Returns → (p.carvedAt j m).position.z ≤ p.tool.safeZ := by
  induction k with
  | zero =>
    have hstart : Machine.Leads Rises (p.opened m).2 (p.entering 0 m).2 := Machine.Leads.refl _
    exact iff_of_true hstart.along_since fun j hj => absurd hj (Nat.not_lt_zero j)
  | succ k ih =>
    have hround : Machine.Emits (p.entering k m).2 (p.entering (k + 1) m).2 := by
      rw [entering_succ]
      exact (p.emits_leaving k m).trans (p.idle_between _ _).emits
    have hiff := p.rises_round_iff (p.entering k m).1 (p.entering k m).2
    rw [(p.emits_entering k m).along_since_trans hround, ih, Nat.forall_lt_succ_right]
    refine and_congr Iff.rfl ?_
    rw [entering_succ]
    exact hiff

/-- **All ways back** go up exactly if the cuts before each of them end at the safe height or
below. -/
theorem rises_cutOut_iff (hr : p.order.passes.repetitions ≠ 0) (m : Machine α) :
    Along Rises (p.opened m).2.position ((p.cutOut m).since (p.opened m).2) ↔
      ∀ k < p.returnCount, (p.carvedAt k m).position.z ≤ p.tool.safeZ := by
  obtain ⟨n, hn⟩ := Passes.exists_succ hr
  have hlast := (p.emits_entering n m).trans (p.emits_leaving n m)
  have hbottom := p.emits_bottom (p.leaving n m).1 (p.leaving n m).2
  have hpass : Along Rises (p.entering n m).2.position
      ((p.leaving n m).2.since (p.entering n m).2) ↔
        (p.order.cut = .pocket → (p.carvedAt n m).position.z ≤ p.tool.safeZ) :=
    p.rises_pass_iff _ _
  have hleft : p.order.cut ≠ .pocket → (p.leaving n m).2 = p.carvedAt n m :=
    fun hcut => (p.carved_of_ne_pocket hcut _ _).symm
  have hfinished : p.cutOut m = p.bottom (p.leaving n m).1 (p.leaving n m).2 := by
    rw [cutOut, p.finished_eq hn]
  rw [hfinished, hlast.along_since_trans hbottom,
    (p.emits_entering n m).along_since_trans (p.emits_leaving n m), rises_entering_iff,
    rises_bottom_iff, hpass]
  by_cases hreturns : p.Returns
  · -- the last pass counts if the tool leaves a pocket then, or goes on to a bottom
    simp only [returnCount, hn, hreturns, true_implies]
    cases hcut : p.order.cut with
    | pocket =>
      show _ ↔ ∀ k < n + 1, _
      rw [Nat.forall_lt_succ_right]
      simp
    | profile => simp
    | spiral => simp
    | spiralWithBottom =>
      have hopen : ¬p.Closed := hreturns.resolve_left (by simp [hcut])
      show _ ↔ ∀ k < n + 1, _
      rw [Nat.forall_lt_succ_right, hleft (by simp [hcut])]
      simp [hopen]
  · obtain ⟨hcut, hclosed⟩ := not_or.mp hreturns
    simp [returnCount, hreturns, hcut, not_not.mp hclosed]

end

/-! ## How deep the cuts end -/

section

open RealScalar

variable {p : ArcPlan ℝ}

theorem levelCuts_z (z : ℝ) (m : Machine ℝ) :
    (p.levelCuts z m).position.z = m.position.z ∨ (p.levelCuts z m).position.z = z := by
  have hkeeps := (p.levelCuts_level z m).mono fun _ _ hd => hd.2
  rw [hkeeps.position_eq]
  exact hkeeps.along_since.keeps_end

/-- Before each pass of an open spiral the tool has gone down again. -/
theorem entering_z_of_open (hs : p.order.cut.isSpiral = true) (hopen : ¬p.Closed) (k : ℕ)
    (m : Machine ℝ) : (p.entering k m).2.position.z = p.order.depthAfter m.position.z k := by
  cases k with
  | zero =>
    rw [ArcOrder.depthAfter, Nat.cast_zero, zero_mul, add_zero]
    exact (opened_at_surface m).2
  | succ k =>
    rw [entering_succ, between, if_neg (not_or.mpr ⟨CircleCut.ne_pocket hs, hopen⟩), hs,
      if_pos rfl]
    exact leaving_fst k m

theorem follow_of_degenerate {a : Arc ℝ} (hs : p.segmented = true) (h : a.Degenerate) (d : Depth ℝ)
    (m : Machine ℝ) : p.follow a d m = m := by
  unfold follow
  rw [if_pos hs]
  exact if_pos (decide_eq_true h)

/-- The arc of a spiral is too small to be cut, so that it does not go down either. -/
def Skipped (p : ArcPlan ℝ) : Prop :=
  p.order.cut.isSpiral = true ∧ p.segmented = true ∧ p.outline.Degenerate

open Classical in
/-- The depth at which the cuts of a pass end: that of the next pass. -/
noncomputable def returnDepth (p : ArcPlan ℝ) (start : ℝ) (k : ℕ) : ℝ :=
  p.order.depthAfter start (if p.Skipped then k else k + 1)

theorem carved_z_of_spiral (hs : p.order.cut.isSpiral = true) (hopen : ¬p.Closed) (k : ℕ)
    (m : Machine ℝ) : (p.carvedAt k m).position.z = p.returnDepth m.position.z k := by
  have hz := entering_z_of_open hs hopen k m
  rw [carvedAt, p.carved_of_spiral hs, entering_fst]
  unfold returnDepth
  by_cases hskipped : p.Skipped
  · obtain ⟨-, hsegmented, hdegenerate⟩ := hskipped
    rw [if_pos ⟨hs, hsegmented, hdegenerate⟩, follow_of_degenerate hsegmented hdegenerate]
    exact hz
  · have hcut : p.segmented = true → ¬p.outline.Degenerate := fun hsegmented hdegenerate =>
      hskipped ⟨hs, hsegmented, hdegenerate⟩
    rw [if_neg hskipped, ArcOrder.depthAfter_succ]
    exact follow_ramp_z hcut _ hz

/-- A level pass that goes down ends at its depth. One that does not ends at the surface, or stays
at the safe height if the tool has gone back before it. -/
theorem carved_z_of_level (hs : p.order.cut.isSpiral = false) (hreturns : p.Returns) (k : ℕ)
    (m : Machine ℝ) :
    (p.carvedAt k m).position.z = p.returnDepth m.position.z k ∨
      k ≠ 0 ∧ p.order.passes.plunge = 0 ∧ (p.carvedAt k m).position.z = p.tool.safeZ := by
  have hskipped : ¬p.Skipped := by
    rintro ⟨hspiral, -⟩
    rw [hs] at hspiral
    cases hspiral
  rw [carvedAt, p.carved_of_level hs, returnDepth, if_neg hskipped, ArcOrder.depthAfter_succ,
    ← entering_fst]
  by_cases hp : p.order.passes.plunge = 0
  · rw [sink_of_flat hp, hp, add_zero]
    rcases levelCuts_z (p.entering k m).1 (p.entering k m).2 with hend | hend
    · rw [hend, entering_z_of_flat hs hp]
      by_cases hk : k = 0
      · rw [if_pos (Or.inl hk), hk]
        exact Or.inl (opened_at_surface m).1.symm
      · have hreturned : ¬(k = 0 ∨ p.order.cut = .profile ∧ p.Closed) := by
          rintro (h | ⟨hcut, hclosed⟩)
          · exact hk h
          · rcases hreturns with h | h
            · rw [hcut] at h
              cases h
            · exact h hclosed
        rw [if_neg hreturned]
        exact Or.inr ⟨hk, rfl, rfl⟩
    · exact Or.inl hend
  · rw [sink_of_plunge hp]
    exact Or.inl (CutsLevel.of_cutsAt (p.levelCuts_level _ _) rfl).2

/-- The depths before the ways back of an order that is carried out from a height. -/
noncomputable def returnDepths (p : ArcPlan ℝ) (start : ℝ) : List ℝ :=
  (List.range p.returnCount).map (p.returnDepth start)

theorem returns_of_lt {k : ℕ} (h : k < p.returnCount) : p.Returns := by
  by_contra hnone
  rw [returnCount, if_neg hnone] at h
  exact absurd h (Nat.not_lt_zero k)

/-- **All ways back** of an order go up exactly if the depth before each of them is at the safe
height or below. -/
theorem rises_cutOut_iff_depths (hr : p.order.passes.repetitions ≠ 0) (m : Machine ℝ) :
    Along Rises (p.opened m).2.position ((p.cutOut m).since (p.opened m).2) ↔
      ∀ z ∈ p.returnDepths m.position.z, z ≤ p.tool.safeZ := by
  have hcarved (k : ℕ) (hk : k < p.returnCount) :
      (p.carvedAt k m).position.z = p.returnDepth m.position.z k ∨
        k ≠ 0 ∧ p.order.passes.plunge = 0 ∧ (p.carvedAt k m).position.z = p.tool.safeZ := by
    have hreturns := returns_of_lt hk
    cases hs : p.order.cut.isSpiral with
    | true =>
      have hopen : ¬p.Closed := hreturns.resolve_left (CircleCut.ne_pocket hs)
      exact Or.inl (carved_z_of_spiral hs hopen k m)
    | false => exact carved_z_of_level hs hreturns k m
  rw [p.rises_cutOut_iff hr]
  simp only [returnDepths, List.forall_mem_map, List.mem_range]
  constructor
  · intro h k hk
    rcases hcarved k hk with hz | ⟨-, hp, -⟩
    · rw [← hz]
      exact h k hk
    · -- an order that does not go down has one depth, and the first way back is from there
      have hfirst : 0 < p.returnCount := Nat.zero_lt_of_lt hk
      have hsame : p.returnDepth m.position.z k = p.returnDepth m.position.z 0 := by
        simp only [returnDepth, ArcOrder.depthAfter, hp, mul_zero]
      rcases hcarved 0 hfirst with hz | ⟨hne, -⟩
      · rw [hsame, ← hz]
        exact h 0 hfirst
      · exact absurd rfl hne
  · intro h k hk
    rcases hcarved k hk with hz | ⟨-, -, hz⟩
    · rw [hz]
      exact h k hk
    · exact hz.le

end

end ArcPlan

end Toolpath
