import Mathlib.Data.List.Nodup
import Toolpath.Json.Record
import Toolpath.Proofs.Json.Draft

/-!
# Written records

A record that is written as an object with its own names has each of its fields found, and each of
the ways to read a field gives back what was written there.

* `Fields.written` — the fields of a written record
* `Fields.of?_object` — they are what is found in the object
* `list?_map` — items that are each read back are read back as a list
* `readable_ofOption_real`, `readable_ofUInt32` — what is written of a field is readable
-/

namespace Toolpath.Json

/-! ## Finding fields -/

theorem find?_of_nodup {β : Type} {fields : List (String × β)} (h : (fields.map (·.1)).Nodup)
    {f : String × β} (hf : f ∈ fields) : fields.find? (·.1 == f.1) = some f := by
  induction fields with
  | nil => cases hf
  | cons g fields ih =>
    rw [List.map_cons, List.nodup_cons] at h
    obtain rfl | hf := List.mem_cons.mp hf
    · simp
    · have hne : g.1 ≠ f.1 := fun heq => h.1 (heq ▸ List.mem_map_of_mem hf)
      rw [List.find?_cons_of_neg (by simpa using hne)]
      exact ih h.2 hf

theorem countP_le_one {fields : List (String × Json)} (h : (fields.map (·.1)).Nodup)
    (name : String) : fields.countP (·.1 == name) ≤ 1 := by
  have hcount := List.nodup_iff_count_le_one.mp h name
  rwa [List.count, List.countP_map] at hcount

namespace Fields

/-- The fields of a record that was written as an object. -/
def written (fields : List (String × Json)) : Fields :=
  ⟨false, fields.map fun f => (f.1, some f.2)⟩

/-- An object with the names of a record, each once, is that record. -/
theorem of?_object {names : List String} {fields : List (String × Json)}
    (hnames : fields.map (·.1) = names) (hnodup : names.Nodup) :
    of? names (.object fields) = some (written fields) := by
  subst hnames
  have honce : ((fields.map (·.1)).all fun name => fields.countP (·.1 == name) ≤ 1) = true := by
    simp [countP_le_one hnodup]
  rw [of?, if_pos honce, written, List.map_map]
  refine congrArg (fun entries => some (Fields.mk false entries)) (List.map_congr_left ?_)
  intro f hf
  simp only [Function.comp, find?_of_nodup hnodup hf, Option.map_some]

@[simp]
theorem get?_written_cons (name other : String) (v : Json) (fields : List (String × Json)) :
    (written ((other, v) :: fields)).get? name =
      if other = name then some v else (written fields).get? name := by
  by_cases h : other = name
  · simp [written, get?, h]
  · simp [written, get?, h]

variable {β : Type}

/-- How a field that may be null is read. -/
def orNull (read : Json → Option β) : Json → Option (Option β)
  | .null => some none
  | v => (read v).map some

@[simp]
theorem optional_eq (fs : Fields) (name : String) (read : Json → Option β) :
    fs.optional name read = (fs.get? name).elim (some none) (orNull read) := by
  unfold optional
  cases fs.get? name with
  | none => rfl
  | some v => cases v <;> rfl

@[simp]
theorem nullable_written (fields : List (String × Json)) (name : String)
    (read : Json → Option β) :
    (written fields).nullable name read =
      ((written fields).get? name).elim (some none) (orNull read) := by
  unfold nullable
  cases (written fields).get? name with
  | none => rfl
  | some v => cases v <;> rfl

@[simp]
theorem withDefault_eq (fs : Fields) (name : String) (default : β) (read : Json → Option β) :
    fs.withDefault name default read = (fs.get? name).elim (some default) read := by
  unfold withDefault
  cases fs.get? name <;> rfl

@[simp]
theorem required_eq (fs : Fields) (name : String) (read : Json → Option β) :
    fs.required name read = (fs.get? name).bind read := rfl

@[simp]
theorem orNull_ofOption_real (x : Option Float) : orNull float? (ofOption .real x) = some x := by
  cases x <;> rfl

end Fields

/-! ## Simple values -/

@[simp]
theorem float?_real (x : Float) : float? (.real x) = some x := rfl

@[simp]
theorem bool?_bool (b : Bool) : bool? (.bool b) = some b := rfl

@[simp]
theorem uint32?_ofUInt32 (n : UInt32) : uint32? (ofUInt32 n) = some n := by
  have hbound : n.toNat < UInt32.size := n.toNat_lt_size
  have hvalue : natBelow? UInt32.size (ofUInt32 n) = some n.toNat := if_pos hbound
  rw [uint32?, hvalue, Option.map_some, UInt32.ofNat_toNat]

@[simp]
theorem Fields.orNull_ofOption_uint32 (n : Option UInt32) :
    orNull uint32? (ofOption ofUInt32 n) = some n := by
  cases n with
  | none => rfl
  | some n =>
    show (uint32? (ofUInt32 n)).map some = _
    rw [uint32?_ofUInt32, Option.map_some]

/-- Items that are read back each by itself are read back as a list. -/
theorem list?_map {β : Type} {read : Json → Option β} {write : β → Json}
    (h : ∀ b, read (write b) = some b) (bs : List β) :
    list? read (.array (bs.map write)) = some bs := by
  show (bs.map write).mapM read = some bs
  induction bs with
  | nil => rfl
  | cons b bs ih => simp [h b, ih]

/-! ## Readable records -/

@[simp]
theorem readable_ofOption_real {room : ℕ} {x : Option Float} :
    Readable room (ofOption .real x) ↔ ∀ y ∈ x, Kept y := by
  cases x with
  | none => simp [ofOption, Readable]
  | some x => simp [ofOption, Readable]

@[simp]
theorem readable_ofUInt32 (room : ℕ) (n : UInt32) : Readable room (ofUInt32 n) := by
  have hbound : n.toNat < UInt32.size := n.toNat_lt_size
  have hsize : UInt32.size = 4294967296 := rfl
  show -2 ^ 63 ≤ (n.toNat : ℤ) ∧ (n.toNat : ℤ) < 2 ^ 64
  omega

@[simp]
theorem readable_ofOption_uint32 (room : ℕ) (n : Option UInt32) :
    Readable room (ofOption ofUInt32 n) := by
  cases n with
  | none => trivial
  | some n => exact readable_ofUInt32 room n

end Toolpath.Json
