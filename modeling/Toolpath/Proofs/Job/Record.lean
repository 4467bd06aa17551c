import Toolpath.Job.Record
import Toolpath.Proofs.Json.Record

/-!
# Jobs, written and read back

Every part of a job is read back from what is written of it: choices from their names, records from
their fields, commands from their fields and their kind. No record has a field of the name under
which the kind is written, so the kind can be taken out and the rest is the record.

* `Command.ofJson?_toJson`, `Job.ofJson?_toJson` — commands and jobs come back from their values
* `Job.ofJson?_array` — commands alone are a job
* `Job.numbers` — the floats of a job
* `Job.readable_toJson` — the value of a job comes back from its text if those floats do
* `Job.reads_back` — a job comes back from its text
-/

namespace Toolpath

open Json

/-! ## Choices -/

@[simp]
theorem Side.ofJson?_name (s : Side) : Side.ofJson? (.string s.name) = some s := by cases s <;> rfl

@[simp]
theorem Turn.ofJson?_name (t : Turn) : Turn.ofJson? (.string t.name) = some t := by cases t <;> rfl

@[simp]
theorem CircleCut.ofJson?_name (c : CircleCut) : CircleCut.ofJson? (.string c.name) = some c := by
  cases c <;> rfl

@[simp]
theorem RectangleCut.ofJson?_name (c : RectangleCut) :
    RectangleCut.ofJson? (.string c.name) = some c := by cases c <;> rfl

@[simp]
theorem PlungeAxis.ofJson?_name (axis : PlungeAxis) :
    PlungeAxis.ofJson? (.string axis.name) = some axis := by cases axis <;> rfl

@[simp]
theorem Anchor.ofJson?_number (a : Anchor) : Anchor.ofJson? (.integer a.number) = some a := by
  obtain _ | c := a
  · rfl
  · cases c <;> rfl

@[simp]
theorem CommandKind.ofJson?_code (k : CommandKind) :
    CommandKind.ofJson? (.string k.code) = some k := by cases k <;> rfl

/-! ## Records -/

@[simp]
theorem Position.ofJson?_toJson (p : Position Float) : Position.ofJson? p.toJson = some p := by
  rw [Position.ofJson?, toJson, Fields.of?_object]
  · simp
  · rfl
  · decide

@[simp]
theorem Toggle.ofJson?_toJson (t : Toggle Float) : Toggle.ofJson? t.toJson = some t := by
  rw [Toggle.ofJson?, toJson, Fields.of?_object]
  · simp
  · rfl
  · decide

@[simp]
theorem Transforms.ofJson?_toJson (t : Transforms Float) :
    Transforms.ofJson? t.toJson = some t := by
  rw [Transforms.ofJson?, toJson, Fields.of?_object]
  · simp
  · rfl
  · decide

theorem ChordArc.ofJson?_toFields (a : ChordArc Float) :
    ChordArc.ofJson? (.object a.toFields) = some a := by
  rw [ChordArc.ofJson?, Fields.of?_object]
  · simp [toFields, Passes.ofFields?, proportions?]
  · rfl
  · decide

theorem BearingCircle.ofJson?_toFields (c : BearingCircle Float) :
    BearingCircle.ofJson? (.object c.toFields) = some c := by
  rw [BearingCircle.ofJson?, Fields.of?_object]
  · simp [toFields, Circle.toFields, Circle.ofFields?, Passes.ofFields?, proportions?]
  · rfl
  · decide

theorem CenterCircle.ofJson?_toFields (c : CenterCircle Float) :
    CenterCircle.ofJson? (.object c.toFields) = some c := by
  rw [CenterCircle.ofJson?, Fields.of?_object]
  · simp [toFields, Circle.toFields, Circle.ofFields?, Passes.ofFields?, proportions?]
  · rfl
  · decide

theorem RelativeArc.ofJson?_toFields (a : RelativeArc Float) :
    RelativeArc.ofJson? (.object a.toFields) = some a := by
  rw [RelativeArc.ofJson?, Fields.of?_object]
  · simp [toFields, Passes.ofFields?, proportions?]
  · rfl
  · decide

theorem Rectangle.ofJson?_toFields (r : Rectangle Float) :
    Rectangle.ofJson? (.object r.toFields) = some r := by
  rw [Rectangle.ofJson?, Fields.of?_object]
  · simp [toFields, Passes.ofFields?]
  · rfl
  · decide

/-! ## Commands -/

namespace Command

/-- What is written of a command besides its kind. -/
def toFields : Command Float → List (String × Json)
  | .chordArc a => a.toFields
  | .bearingCircle c => c.toFields
  | .centerCircle c => c.toFields
  | .arc a => a.toFields
  | .rectangle r => r.toFields

theorem toJson_eq (c : Command Float) :
    c.toJson = .object ((kindField, .string c.kind.code) :: c.toFields) := by
  cases c <;> rfl

/-- No record has a field in which its kind could be taken to stand. -/
theorem kindField_not_mem (c : Command Float) : kindField ∉ c.toFields.map (·.1) := by
  cases c with
  | chordArc a => exact (by decide : kindField ∉ ChordArc.fieldNames)
  | bearingCircle c => exact (by decide : kindField ∉ BearingCircle.fieldNames)
  | centerCircle c => exact (by decide : kindField ∉ CenterCircle.fieldNames)
  | arc a => exact (by decide : kindField ∉ RelativeArc.fieldNames)
  | rectangle r => exact (by decide : kindField ∉ Rectangle.fieldNames)

theorem split?_object {kind : CommandKind} {fields : List (String × Json)}
    (h : kindField ∉ fields.map (·.1)) :
    split? (.object ((kindField, .string kind.code) :: fields)) = some (kind, .object fields) := by
  have hother : ∀ f ∈ fields, f.1 ≠ kindField := fun f hf heq =>
    h (heq ▸ List.mem_map_of_mem hf)
  have hkind : fields.filter (·.1 == kindField) = [] := by
    simpa [List.filter_eq_nil_iff] using fun name v hf => hother (name, v) hf
  have hrest : fields.filter (·.1 != kindField) = fields := by
    simpa [List.filter_eq_self] using fun name v hf => hother (name, v) hf
  simp [split?, hkind, hrest]

theorem ofBody?_toFields (c : Command Float) : ofBody? c.kind (.object c.toFields) = some c := by
  cases c with
  | chordArc a => exact congrArg (Option.map chordArc) (ChordArc.ofJson?_toFields a)
  | bearingCircle c => exact congrArg (Option.map bearingCircle) (BearingCircle.ofJson?_toFields c)
  | centerCircle c => exact congrArg (Option.map centerCircle) (CenterCircle.ofJson?_toFields c)
  | arc a => exact congrArg (Option.map arc) (RelativeArc.ofJson?_toFields a)
  | rectangle r => exact congrArg (Option.map rectangle) (Rectangle.ofJson?_toFields r)

/-- A command is read back. -/
theorem ofJson?_toJson (c : Command Float) : ofJson? c.toJson = some c := by
  rw [ofJson?, toJson_eq, split?_object c.kindField_not_mem]
  exact ofBody?_toFields c

end Command

/-! ## Jobs -/

namespace Job

/-- A job is read back from its value. -/
theorem ofJson?_toJson (job : Job Float) : ofJson? job.toJson = some job := by
  rw [toJson, ofJson?, Fields.of?_object]
  · simp [list?_map Command.ofJson?_toJson]
  · rfl
  · decide

/-- Commands alone are the job that has them and says nothing else. -/
theorem ofJson?_array (items : List Json) :
    ofJson? (.array items) = ofJson? (.object [("commands", .array items)]) := by
  simp [ofJson?, Fields.of?, Fields.get?, list?, Option.map_eq_bind]

end Job

/-! ## The numbers of a job -/

/-- The coordinates of a position. -/
def Position.numbers (p : Position Float) : List Float := [p.x, p.y, p.z]

/-- The magnitudes of transforms. -/
def Transforms.numbers (t : Transforms Float) : List Float :=
  [t.scale.magnitude, t.shearX.magnitude, t.shearY.magnitude, t.level.magnitude]

/-- The floats of a chord arc. -/
def ChordArc.numbers (a : ChordArc Float) : List Float :=
  a.chord.toList ++ a.height.toList ++ a.angle.toList ++ [a.passes.plunge, a.scale.x, a.scale.y]

/-- The floats that both kinds of circle have. -/
def Circle.numbers (c : Circle Float) : List Float :=
  c.diameter.toList ++ [c.startBearing, c.endBearing, c.passes.plunge, c.scale.x, c.scale.y]

/-- The floats of a center circle. -/
def CenterCircle.numbers (c : CenterCircle Float) : List Float :=
  c.centerX.toList ++ c.centerY.toList ++ c.toCircle.numbers

/-- The floats of a relative arc. -/
def RelativeArc.numbers (a : RelativeArc Float) : List Float :=
  a.endX.toList ++ a.endY.toList ++ a.centerX.toList ++ a.centerY.toList ++
    [a.passes.plunge, a.scale.x, a.scale.y]

/-- The floats of a rectangle. -/
def Rectangle.numbers (r : Rectangle Float) : List Float :=
  r.lenX.toList ++ r.lenY.toList ++ r.centerX.toList ++ r.centerY.toList ++
    [r.passes.plunge, r.rotation]

/-- The floats of a command. -/
def Command.numbers : Command Float → List Float
  | .chordArc a => a.numbers
  | .bearingCircle c => c.toCircle.numbers
  | .centerCircle c => c.numbers
  | .arc a => a.numbers
  | .rectangle r => r.numbers

/-- The floats of a job. -/
def Job.numbers (job : Job Float) : List Float :=
  job.start.numbers ++ job.transforms.numbers ++ job.commands.flatMap Command.numbers

theorem Anchor.number_lt (a : Anchor) : a.number < 2 ^ 64 := by
  obtain _ | c := a
  · decide
  · cases c <;> decide

/-- What is written of a command is readable if its floats are kept. -/
theorem Command.readable_toFields {c : Command Float} (h : ∀ x ∈ c.numbers, Kept x) (room : ℕ) :
    ∀ f ∈ c.toFields, Readable room f.2 := by
  cases c with
  | chordArc a =>
    simp only [numbers, ChordArc.numbers, List.mem_append, or_imp, forall_and] at h
    simp_all [toFields, ChordArc.toFields, Readable]
  | bearingCircle c =>
    simp only [numbers, Circle.numbers, List.mem_append, or_imp, forall_and] at h
    simp_all [toFields, BearingCircle.toFields, Circle.toFields, Readable]
  | centerCircle c =>
    simp only [numbers, CenterCircle.numbers, Circle.numbers, List.mem_append, or_imp,
      forall_and] at h
    simp_all [toFields, CenterCircle.toFields, Circle.toFields, Readable]
  | arc a =>
    simp only [numbers, RelativeArc.numbers, List.mem_append, or_imp, forall_and] at h
    simp_all [toFields, RelativeArc.toFields, Readable]
  | rectangle r =>
    have hanchor := r.anchor.number_lt
    simp only [numbers, Rectangle.numbers, List.mem_append, or_imp, forall_and] at h
    simp_all [toFields, Rectangle.toFields, Readable]

theorem Command.readable_toJson {c : Command Float} (h : ∀ x ∈ c.numbers, Kept x) (room : ℕ) :
    Readable (room + 1) c.toJson := by
  rw [toJson_eq, readable_object]
  exact ⟨Nat.succ_pos room, List.forall_mem_cons.mpr ⟨trivial, readable_toFields h room⟩⟩

theorem Position.readable_toJson {p : Position Float} (h : ∀ x ∈ p.numbers, Kept x) (room : ℕ) :
    Readable (room + 1) p.toJson := by
  rw [toJson, readable_object]
  simpa [numbers, Readable] using h

theorem Transforms.readable_toJson {t : Transforms Float} (h : ∀ x ∈ t.numbers, Kept x)
    (room : ℕ) : Readable (room + 2) t.toJson := by
  have htoggle : ∀ g : Toggle Float, Kept g.magnitude → Readable (room + 1) g.toJson := by
    intro g hg
    rw [Toggle.toJson, readable_object]
    simpa [Readable] using hg
  simp only [numbers, List.forall_mem_cons] at h
  rw [toJson, readable_object]
  simp [htoggle, h]

/-- Commands as an array, as they stand in a job and alone. -/
theorem Command.readable_array {cs : List (Command Float)}
    (h : ∀ x ∈ cs.flatMap Command.numbers, Kept x) (room : ℕ) :
    Readable (room + 2) (.array (cs.map Command.toJson)) := by
  rw [Json.readable_array]
  refine ⟨Nat.succ_pos _, List.forall_mem_map.mpr fun c hc => ?_⟩
  exact readable_toJson (fun x hx => h x (List.mem_flatMap_of_mem hc hx)) room

namespace Job

/-- What is written of a job is readable if its floats are kept. -/
theorem readable_toJson {job : Job Float} (h : ∀ x ∈ job.numbers, Kept x) :
    Readable maxDepth job.toJson := by
  simp only [numbers, List.mem_append, or_imp, forall_and] at h
  obtain ⟨⟨hstart, htransforms⟩, hcommands⟩ := h
  rw [toJson, readable_object]
  refine ⟨by decide, List.forall_mem_cons.mpr ⟨Position.readable_toJson hstart _,
    List.forall_mem_cons.mpr ⟨Transforms.readable_toJson htransforms _,
    List.forall_mem_cons.mpr ⟨Command.readable_array hcommands _, by simp⟩⟩⟩⟩

/-- **A job comes back from its text, and commands alone are a job.** A job whose floats come back
from their texts is read as it was from its own text, on one line or over several. A text that is an
array, and a text that is an object with that array as its commands and nothing else, are read as
the same job, or both refused. -/
theorem reads_back :
    (∀ job : Job Float, (∀ x ∈ job.numbers, Kept x) →
      Job.read job.text = .ok job ∧
        Job.read (String.ofList (job.toJson.spread 0)) = .ok job) ∧
      ∀ (bare whole : String) (items : List Json), Json.read bare = .ok (.array items) →
        Json.read whole = .ok (.object [("commands", .array items)]) →
        Job.read bare = Job.read whole := by
  constructor
  · intro job hkept
    have hreadable := readable_toJson hkept
    rw [read, read, Job.text, readAs_eq (read_text hreadable), readAs_eq (read_spread hreadable),
      ofJson?_toJson]
    exact ⟨rfl, rfl⟩
  · intro bare whole items hbare hwhole
    rw [read, read, readAs_eq hbare, readAs_eq hwhole, ofJson?_array]

/-- A job with a command of each kind. -/
def oneOfEach : Job Float where
  start := ⟨0.5, -0.25, 0⟩
  transforms := ⟨⟨true, 25.4⟩, .off, .off, ⟨false, 0.1⟩⟩
  commands := [
    .chordArc ⟨some 12, none, .outside, .counterclockwise, none, ⟨-0.1, 3, false, true⟩, ⟨1, 0.5⟩,
      some 4⟩,
    .bearingCircle ⟨⟨some 3.2, .inside, .clockwise, 45, -90, ⟨-0.25, 1, true, false⟩, ⟨1, 1⟩,
      .spiral⟩⟩,
    .centerCircle ⟨⟨none, .on, .clockwise, 0, 360, ⟨0, 2, false, false⟩, ⟨2, 1⟩, .pocket⟩,
      some 1e-7, none⟩,
    .arc ⟨some 1e21, none, some 0.3, some (-7), .clockwise, ⟨0, 1, false, false⟩, ⟨1, 1⟩,
      .spiralWithBottom⟩,
    .rectangle ⟨some 2, some 1, .on, .clockwise, .corner .third, ⟨-0.5, 2, false, true⟩,
      .pocketInsideOut, 30, .a, true, none, some 4.75⟩]

/-- A job with a command of each kind is read back, and so are its commands alone. -/
theorem oneOfEach_reads_back :
    (∀ x ∈ oneOfEach.numbers, Kept x) ∧
      (Job.read oneOfEach.text = .ok oneOfEach ∧
        Job.read (String.ofList (oneOfEach.toJson.spread 0)) = .ok oneOfEach) ∧
      Job.read (Json.array (oneOfEach.commands.map Command.toJson)).text =
        Job.read
          (Json.object [("commands", .array (oneOfEach.commands.map Command.toJson))]).text := by
  have hkept : ∀ x ∈ oneOfEach.numbers, Kept x := by decide +kernel
  have hcommands : ∀ x ∈ oneOfEach.commands.flatMap Command.numbers, Kept x :=
    fun x hx => hkept x (List.mem_append_right _ hx)
  have hobject : Readable maxDepth
      (.object [("commands", .array (oneOfEach.commands.map Command.toJson))]) := by
    rw [readable_object]
    exact ⟨by decide, List.forall_mem_singleton.mpr (Command.readable_array hcommands _)⟩
  exact ⟨hkept, reads_back.1 oneOfEach hkept,
    reads_back.2 _ _ _ (read_text (Command.readable_array hcommands _)) (read_text hobject)⟩

end Job

end Toolpath
