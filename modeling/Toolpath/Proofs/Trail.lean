import Toolpath.Machine
import Mathlib.Order.Defs.Unbundled

/-!
# Trails

The moves that take a machine from one state to another. Whatever a command does is the emission of
a run of moves (`Machine.emitAll`), so a property of a command is a property of that run, seen from
where the tool stands at each of its moves (`Along`).

* `Along` and its composition with `++`
* `Machine.emitAll`, and what it leaves alone
* `Machine.Leads`, the two together: it composes like the operations do
* `Machine.since`, the moves that one queue has and an earlier one has not
* `Machine.Acts`, what a command does: it emits moves, and may note where an arc starts
* where the operations of a machine lead
-/

namespace Toolpath

open Scalar

variable {α : Type}

/-! ## Positions along a run of moves -/

namespace Position

@[simp] theorem afterAll_nil (p : Position α) : p.afterAll [] = p := rfl

@[simp] theorem afterAll_cons (p : Position α) (d : Move α) (ds : List (Move α)) :
    p.afterAll (d :: ds) = (p.after d).afterAll ds := rfl

@[simp] theorem afterAll_append (p : Position α) (ds es : List (Move α)) :
    p.afterAll (ds ++ es) = (p.afterAll ds).afterAll es := List.foldl_append

/-- A run without depth words stays at its depth. -/
theorem afterAll_z {ds : List (Move α)} (h : ∀ d ∈ ds, d.z = none) (p : Position α) :
    (p.afterAll ds).z = p.z := by
  induction ds generalizing p with
  | nil => rfl
  | cons d ds ih =>
    rw [afterAll_cons, ih (fun e he => h e (List.mem_cons_of_mem _ he))]
    simp [Position.after, h d List.mem_cons_self]

/-- A move along the Z axis stays over its point. -/
theorem point_after {d : Move α} (h : d.isZOnly = true) (p : Position α) :
    (p.after d).point = p.point := by
  simp only [Move.isZOnly, Bool.and_eq_true, Option.isNone_iff_eq_none] at h
  simp [after, point, h.1.2, h.2]

end Position

/-- Every move of a run has a property, seen from where the move starts. -/
def Along (P : Position α → Move α → Prop) : Position α → List (Move α) → Prop
  | _, [] => True
  | p, d :: ds => P p d ∧ Along P (p.after d) ds

variable {P Q : Position α → Move α → Prop}

@[simp] theorem along_nil (p : Position α) : Along P p [] := trivial

@[simp] theorem along_cons {p : Position α} {d : Move α} {ds : List (Move α)} :
    Along P p (d :: ds) ↔ P p d ∧ Along P (p.after d) ds := Iff.rfl

theorem along_append {p : Position α} {ds es : List (Move α)} :
    Along P p (ds ++ es) ↔ Along P p ds ∧ Along P (p.afterAll ds) es := by
  induction ds generalizing p with
  | nil => simp
  | cons d ds ih =>
    rw [List.cons_append, along_cons, along_cons, ih, Position.afterAll_cons, and_assoc]

theorem Along.mono (h : ∀ p d, P p d → Q p d) {p : Position α} {ds : List (Move α)}
    (hp : Along P p ds) : Along Q p ds := by
  induction ds generalizing p with
  | nil => trivial
  | cons d ds ih => exact ⟨h p d hp.1, ih hp.2⟩

/-- A property of the moves alone holds along a run if every move has it. -/
theorem along_of_forall {R : Move α → Prop} {ds : List (Move α)} (h : ∀ d ∈ ds, R d)
    (p : Position α) : Along (fun _ d => R d) p ds := by
  induction ds generalizing p with
  | nil => trivial
  | cons d ds ih =>
    exact ⟨h d List.mem_cons_self, ih (fun e he => h e (List.mem_cons_of_mem _ he)) _⟩

theorem Along.forall {R : Move α → Prop} {ds : List (Move α)} {p : Position α}
    (h : Along (fun _ d => R d) p ds) : ∀ d ∈ ds, R d := by
  induction ds generalizing p with
  | nil => simp
  | cons d ds ih =>
    rintro e (_ | ⟨_, he⟩)
    · exact h.1
    · exact ih h.2 e he

/-! ## Machines along a run of moves -/

namespace Machine

@[simp] theorem position_emit (m : Machine α) (d : Move α) :
    (m.emit d).position = m.position.after d := rfl

theorem size_emit (m : Machine α) (d : Move α) : (m.emit d).queue.size = m.queue.size + 1 :=
  Array.size_push d

/-- Queue a run of moves and follow it. -/
def emitAll (m : Machine α) (ds : List (Move α)) : Machine α := ds.foldl emit m

@[simp] theorem emitAll_nil (m : Machine α) : m.emitAll [] = m := rfl

@[simp] theorem emitAll_cons (m : Machine α) (d : Move α) (ds : List (Move α)) :
    m.emitAll (d :: ds) = (m.emit d).emitAll ds := rfl

@[simp] theorem emitAll_append (m : Machine α) (ds es : List (Move α)) :
    m.emitAll (ds ++ es) = (m.emitAll ds).emitAll es := List.foldl_append

/-- **The machine after a run of moves:** the position has followed it, the queue has grown by it,
and nothing else has changed. -/
theorem emitAll_eq (m : Machine α) (ds : List (Move α)) :
    m.emitAll ds =
      { m with position := m.position.afterAll ds, queue := m.queue ++ ds.toArray } := by
  induction ds generalizing m with
  | nil => simp
  | cons d ds ih =>
    rw [emitAll_cons, ih]
    simp [emit]

@[simp] theorem position_emitAll (m : Machine α) (ds : List (Move α)) :
    (m.emitAll ds).position = m.position.afterAll ds := by rw [emitAll_eq]

@[simp] theorem queue_emitAll (m : Machine α) (ds : List (Move α)) :
    (m.emitAll ds).queue = m.queue ++ ds.toArray := by rw [emitAll_eq]

@[simp] theorem feeds_emitAll (m : Machine α) (ds : List (Move α)) :
    (m.emitAll ds).feeds = m.feeds := by rw [emitAll_eq]

@[simp] theorem keepDepth_emitAll (m : Machine α) (ds : List (Move α)) :
    (m.emitAll ds).keepDepth = m.keepDepth := by rw [emitAll_eq]

@[simp] theorem transforms_emitAll (m : Machine α) (ds : List (Move α)) :
    (m.emitAll ds).transforms = m.transforms := by rw [emitAll_eq]

/-- The moves queued since a machine was in an earlier state. -/
def since (m' m : Machine α) : List (Move α) := m'.queue.toList.drop m.queue.size

theorem since_of_queue {m m' : Machine α} {ds : List (Move α)}
    (h : m'.queue = m.queue ++ ds.toArray) : m'.since m = ds := by
  simp [since, h]

@[simp] theorem since_emitAll (m : Machine α) (ds : List (Move α)) :
    (m.emitAll ds).since m = ds := since_of_queue (queue_emitAll m ds)

/-- A relation between states that composes holds across a loop if it holds across its rounds. -/
theorem rel_foldl {R : Machine α → Machine α → Prop} [IsPreorder (Machine α) R] {β : Type}
    {f : Machine α → β → Machine α} (h : ∀ m b, R m (f m b)) (bs : List β) (m : Machine α) :
    R m (bs.foldl f m) := by
  induction bs generalizing m with
  | nil => exact refl_of R m
  | cons b bs ih => exact trans_of R (h m b) (ih _)

/-- A run of moves with a property leads from one state to another. -/
def Leads (P : Position α → Move α → Prop) (m m' : Machine α) : Prop :=
  ∃ ds, m' = m.emitAll ds ∧ Along P m.position ds

namespace Leads

variable {m m' m'' : Machine α}

theorem refl (m : Machine α) : Leads P m m := ⟨[], rfl, trivial⟩

theorem trans (h : Leads P m m') (h' : Leads P m' m'') : Leads P m m'' := by
  obtain ⟨ds, rfl, hds⟩ := h
  obtain ⟨es, rfl, hes⟩ := h'
  rw [position_emitAll] at hes
  exact ⟨ds ++ es, (emitAll_append m ds es).symm, along_append.mpr ⟨hds, hes⟩⟩

theorem emit {d : Move α} (h : P m.position d) : Leads P m (m.emit d) :=
  ⟨[d], rfl, h, trivial⟩

theorem mono (h : ∀ p d, P p d → Q p d) (hm : Leads P m m') : Leads Q m m' := by
  obtain ⟨ds, rfl, hds⟩ := hm
  exact ⟨ds, rfl, hds.mono h⟩

instance : IsPreorder (Machine α) (Leads P) where
  refl := refl
  trans _ _ _ := trans

/-- A loop leads where its rounds lead. -/
theorem foldl {β : Type} {f : Machine α → β → Machine α} (h : ∀ m b, Leads P m (f m b))
    (bs : List β) (m : Machine α) : Leads P m (bs.foldl f m) := rel_foldl h bs m

theorem along_since (h : Leads P m m') : Along P m.position (m'.since m) := by
  obtain ⟨ds, rfl, hds⟩ := h
  rwa [since_emitAll]

/-- The moves of two trails, one after the other. -/
theorem since_trans (h : Leads P m m') (h' : Leads Q m' m'') :
    m''.since m = m'.since m ++ m''.since m' := by
  obtain ⟨ds, rfl, -⟩ := h
  obtain ⟨es, rfl, -⟩ := h'
  rw [← emitAll_append, since_emitAll, since_emitAll, emitAll_append, since_emitAll]

theorem queue_eq (h : Leads P m m') : m'.queue = m.queue ++ (m'.since m).toArray := by
  obtain ⟨ds, rfl, -⟩ := h
  rw [queue_emitAll, since_emitAll]

theorem size_le (h : Leads P m m') : m.queue.size ≤ m'.queue.size := by
  rw [h.queue_eq, Array.size_append]
  exact Nat.le_add_right _ _

theorem position_eq (h : Leads P m m') : m'.position = m.position.afterAll (m'.since m) := by
  obtain ⟨ds, rfl, -⟩ := h
  rw [position_emitAll, since_emitAll]

/-- What holds along two trails holds along both. -/
theorem along_since_trans {R : Position α → Move α → Prop} (h : Leads P m m')
    (h' : Leads Q m' m'') :
    Along R m.position (m''.since m) ↔
      Along R m.position (m'.since m) ∧ Along R m'.position (m''.since m') := by
  rw [h.since_trans h', along_append, ← h.position_eq]

theorem feeds_eq (h : Leads P m m') : m'.feeds = m.feeds := by
  obtain ⟨ds, rfl, -⟩ := h
  rw [feeds_emitAll]

theorem keepDepth_eq (h : Leads P m m') : m'.keepDepth = m.keepDepth := by
  obtain ⟨ds, rfl, -⟩ := h
  rw [keepDepth_emitAll]

theorem transforms_eq (h : Leads P m m') : m'.transforms = m.transforms := by
  obtain ⟨ds, rfl, -⟩ := h
  rw [transforms_emitAll]

/-- A trail without depth words stays at its depth. -/
theorem z_eq (h : Leads (fun _ d => d.z = none) m m') : m'.position.z = m.position.z := by
  obtain ⟨ds, rfl, hds⟩ := h
  rw [position_emitAll, Position.afterAll_z hds.forall]

end Leads

/-! ## What a command does -/

/-- One state comes from another by moves with a property, and by noting where an arc starts. It
makes no difference when the note is made, so it is put first. -/
def Acts (P : Position α → Move α → Prop) (m m' : Machine α) : Prop :=
  ∃ start keep, Leads P { m with arcStart := start, keepDepth := keep } m'

theorem Leads.acts {m m' : Machine α} (h : Leads P m m') : Acts P m m' :=
  ⟨m.arcStart, m.keepDepth, h⟩

namespace Acts

variable {m m' m'' : Machine α}

theorem after_leads (h : Leads P m m') (h' : Acts P m' m'') : Acts P m m'' := by
  obtain ⟨ds, rfl, hds⟩ := h
  obtain ⟨start, keep, h'⟩ := h'
  refine ⟨start, keep, Leads.trans ⟨ds, ?_, hds⟩ h'⟩
  rw [emitAll_eq, emitAll_eq]

theorem along_since (h : Acts P m m') : Along P m.position (m'.since m) := by
  obtain ⟨start, keep, h⟩ := h
  have hsince := Leads.along_since h
  exact hsince

end Acts

/-! ## The operations of a machine -/

/-- One state comes from another by emitting moves. -/
abbrev Emits (m m' : Machine α) : Prop := Leads (fun _ _ => True) m m'

theorem Leads.emits {m m' : Machine α} (h : Leads P m m') : Emits m m' :=
  h.mono fun _ _ _ => trivial

theorem emits_emit (m : Machine α) (d : Move α) : Emits m (m.emit d) := Leads.emit trivial

/-- One state comes from another by moves along the Z axis alone. -/
abbrev Lifts (m m' : Machine α) : Prop := Leads (fun _ d => d.isZOnly = true) m m'

/-- They stay over their point. -/
theorem Lifts.point_eq {m m' : Machine α} (h : Lifts m m') :
    m'.position.point = m.position.point := by
  obtain ⟨ds, rfl, hds⟩ := h
  rw [position_emitAll]
  generalize m.position = p at hds
  induction ds generalizing p with
  | nil => rfl
  | cons d ds ih => rw [Position.afterAll_cons, ih _ hds.2, Position.point_after hds.1]

variable [Scalar α]

theorem leads_retract {m : Machine α} {safeZ : α} (h : P m.position (.rapidZ safeZ)) :
    Leads P m (m.retract safeZ) := by
  unfold retract
  split
  · exact Leads.emit h
  · exact Leads.refl m

theorem leads_pullUp {m : Machine α} {z : α} (h : P m.position (.rapidZ z)) (stayDown : Bool) :
    Leads P m (m.pullUp stayDown z) := by
  unfold pullUp
  split
  · exact Leads.emit h
  · exact Leads.refl m

/-- An approach starts by rising to the safe height, unless the tool keeps its depth. -/
def raised (m : Machine α) (tool : Tool α) : Machine α :=
  if m.position.z < tool.safeZ ∧ m.keepDepth = false then m.rapidZ tool.safeZ else m

/-- An approach ends by going down again, unless the tool keeps its depth. -/
def lowered (m : Machine α) (depth : α) : Machine α :=
  if m.position.z != depth && !m.keepDepth then m.plungeTo depth else m

theorem leads_raised {m : Machine α} {tool : Tool α} (h : P m.position (.rapidZ tool.safeZ)) :
    Leads P m (m.raised tool) := by
  unfold raised
  split
  · exact Leads.emit h
  · exact Leads.refl m

theorem leads_lowered {m : Machine α} {depth : α}
    (h : P m.position (.linearZ depth m.feeds.zPerMinute)) : Leads P m (m.lowered depth) := by
  unfold lowered
  split
  · exact Leads.emit h
  · exact Leads.refl m

theorem lifts_retract (m : Machine α) (safeZ : α) : Lifts m (m.retract safeZ) := leads_retract rfl

theorem lifts_pullUp (m : Machine α) (stayDown : Bool) (z : α) : Lifts m (m.pullUp stayDown z) :=
  leads_pullUp rfl stayDown

theorem lifts_raised (m : Machine α) (tool : Tool α) : Lifts m (m.raised tool) := leads_raised rfl

theorem lifts_lowered (m : Machine α) (depth : α) : Lifts m (m.lowered depth) := leads_lowered rfl

theorem keepDepth_raised (m : Machine α) (tool : Tool α) :
    (m.raised tool).keepDepth = m.keepDepth :=
  (leads_raised trivial : Emits m (m.raised tool)).keepDepth_eq

theorem approach_eq (m : Machine α) (tool : Tool α) (entry : Point α) (depth : α) :
    m.approach tool entry depth =
      if m.position.Over entry then m else ((m.raised tool).rapidXY entry).lowered depth := by
  have hk : ((m.raised tool).rapidXY entry).keepDepth = m.keepDepth := m.keepDepth_raised tool
  unfold approach lowered
  rw [hk]
  rfl

/-- An approach rises, travels and goes down. -/
theorem leads_approach {m : Machine α} {tool : Tool α} {entry : Point α} {depth : α}
    (hup : P m.position (.rapidZ tool.safeZ)) (hover : P (m.raised tool).position (.rapidXY entry))
    (hdown : ∀ p feed, P p (.linearZ depth feed)) :
    Leads P m (m.approach tool entry depth) := by
  rw [approach_eq]
  split
  · exact Leads.refl m
  · exact ((leads_raised hup).trans (Leads.emit hover)).trans (leads_lowered (hdown _ _))

end Machine

end Toolpath
