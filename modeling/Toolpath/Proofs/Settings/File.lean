import Toolpath.Settings.File
import Toolpath.Proofs.OrderedScalar
import Toolpath.Proofs.Settings.Text
import Toolpath.Proofs.Store
import Toolpath.Proofs.Verdict

/-!
# Settings, kept in files

Settings are checked before they are written and after they are read, by the same check. So what is
saved can be loaded, what is loaded is in range, and what is out of range never reaches a file.

* `SettingsFormat.read_write` — settings come back from their text in either format
* `Settings.valid_iff` — the ranges
* `Settings.valid_of_ofText`, `Settings.valid_of_load` — what is read is in its ranges
* `Settings.save_of_valid` — what is in its ranges is saved where a file can be written
* `Settings.save_load` — saving and loading
-/

namespace Toolpath

/-! ## Formats -/

namespace SettingsFormat

/-- Settings come back from their text if their floats are finite, and if JSON keeps them where they
are written in JSON. -/
theorem read_write {format : SettingsFormat} {s : Settings Float}
    (hfinite : ∀ x ∈ s.numbers, x.isFinite = true)
    (hkept : format = .json → ∀ x ∈ s.numbers, Json.Kept x) :
    format.read (format.write s) = .ok s := by
  cases format with
  | json => rw [read, write, Settings.ofJsonText_jsonText (hkept rfl)]
  | toml => rw [read, write, Settings.ofTomlText?_tomlText hfinite]

end SettingsFormat

namespace Settings

/-! ## What is checked -/

section

variable {α : Type} [Scalar α]

open Scalar

/-- A check finds no fault if what it asks for holds and the checks behind it find none. -/
theorem fault?_eq_none {p : Prop} [Decidable p] {fault : SettingFault}
    {rest : Option SettingFault} :
    (if ¬p then some fault else rest) = none ↔ p ∧ rest = none := by
  by_cases h : p <;> simp [h]

/-- **Settings are in their ranges** if each of the six is. -/
theorem valid_iff {s : Settings α} :
    s.Valid ↔
      (PositiveFinite s.tool.cutterDiameter ∧
        (0 ≤ s.tool.pocketOverlap ∧ s.tool.pocketOverlap < 100) ∧ isFinite s.tool.safeZ = true ∧
        0 < s.tool.arcStep ∧ s.tool.arcStep ≤ pi / 2) ∧
      PositiveFinite s.feeds.xy ∧ PositiveFinite s.feeds.z := by
  simp only [Settings.Valid, Settings.fault?, Option.or_eq_none_iff, Tool.fault?, Feeds.fault?,
    fault?_eq_none, and_true]

end

theorem isFinite_of_valid {s : Settings Float} (h : s.Valid) :
    ∀ x ∈ s.numbers, x.isFinite = true := by
  obtain ⟨⟨hdiameter, ⟨hoverlap, hoverlap'⟩, hsafeZ, harc, harc'⟩, hxy, hz⟩ := valid_iff.mp h
  have hle : ∀ {a b : Float}, a < b → a ≤ b := fun hlt => (OrderedScalar.lt_iff.mp hlt).1
  have hoverlap := FloatOrder.isFinite_of_le (by decide +kernel) (by decide +kernel) hoverlap
    (hle hoverlap')
  have harc := FloatOrder.isFinite_of_le (by decide +kernel) (by decide +kernel) (hle harc) harc'
  simpa [numbers, Tool.members, Feeds.members] using
    ⟨hdiameter.1, hoverlap, hsafeZ, harc, hxy.1, hz.1⟩

theorem check_of_valid {s : Settings Float} (h : s.Valid) : s.check = .ok s := by
  rw [check, h]

/-- Settings that are checked are in their ranges, and come out as they were. -/
theorem of_check {s t : Settings Float} (h : s.check = .ok t) : t = s ∧ s.Valid := by
  unfold check at h
  cases hfault : s.fault? with
  | none =>
    rw [hfault] at h
    cases h
    exact ⟨rfl, hfault⟩
  | some fault =>
    rw [hfault] at h
    cases h

/-- Settings that are read from a text are in their ranges. -/
theorem valid_of_ofText {format : SettingsFormat} {text : String} {s : Settings Float}
    (h : ofText format text = .ok s) : s.Valid := by
  obtain ⟨t, -, hcheck⟩ := exists_of_bind_eq_ok h
  obtain ⟨rfl, hvalid⟩ := of_check hcheck
  exact hvalid

/-- Settings that are loaded are in their ranges. -/
theorem valid_of_load {source : TextSource} {path : String} {s : Settings Float}
    (h : load source path = .ok s) : s.Valid := by
  unfold load at h
  split at h
  · cases h
  · split at h
    · cases h
    · exact valid_of_ofText h

/-! ## Saving -/

/-- A save that fails leaves the store as it was. -/
theorem save_unchanged {s : Settings Float} {path : String} {store : Store}
    (h : (s.save path store).2 ≠ .ok ()) : (s.save path store).1 = store := by
  unfold save at h ⊢
  split
  · rfl
  · split
    · rfl
    · split
      · rfl
      · simp_all

/-- Settings that are out of range are not saved, and neither are any under another extension. -/
theorem of_save {s : Settings Float} {path : String} {store : Store}
    (h : (s.save path store).2 = .ok ()) :
    s.Valid ∧ ∃ format, SettingsFormat.ofPath? path = some format := by
  unfold save at h
  split at h
  · cases h
  · next hcheck =>
    split at h
    · cases h
    · next format hformat =>
      refine ⟨(of_check hcheck).2, format, ?_⟩
      unfold SettingsFormat.ofPath at hformat
      split at hformat
      · next hpath => rw [hpath, Except.ok.inj hformat]
      · cases hformat

/-- Settings in their ranges are saved where a file can be written. -/
theorem save_of_valid {s : Settings Float} {path : String} {store : Store}
    {format : SettingsFormat} (hformat : SettingsFormat.ofPath? path = some format)
    (hwritable : store.Writable path) (hvalid : s.Valid) :
    ∃ store', store.writeText path (format.write s) = .ok store' ∧
      s.save path store = (store', .ok ()) := by
  obtain ⟨store', hwrite⟩ := hwritable.write (format.write s).toUTF8
  have htext : store.writeText path (format.write s) = .ok store' := hwrite
  refine ⟨store', htext, ?_⟩
  rw [save, check_of_valid hvalid, SettingsFormat.ofPath, hformat]
  simp only [htext]

/-- Settings are loaded as they were written. -/
theorem load_of_writeText {s : Settings Float} {path : String} {store store' : Store}
    {format : SettingsFormat} (hformat : SettingsFormat.ofPath? path = some format)
    (hwrite : store.writeText path (format.write s) = .ok store') (hvalid : s.Valid)
    (hkept : format = .json → ∀ x ∈ s.numbers, Json.Kept x) :
    load store'.readText path = .ok s := by
  rw [load, Store.readText_writeText hwrite, SettingsFormat.ofPath, hformat]
  show (format.read (format.write s)).bind check = .ok s
  rw [SettingsFormat.read_write (isFinite_of_valid hvalid) hkept]
  exact check_of_valid hvalid

/-- **Settings that can be saved are those that are in range, and they are loaded as they were.**
Under a path with the extension of a format, where a file can be written, a save succeeds exactly if
the settings are in their ranges, and a load then gives them back: always from TOML, and from JSON
if it keeps their floats. A save that fails, as one under any other extension does, leaves the store
as it was. Whatever is read, from a file or from a text, is in its ranges. -/
theorem save_load :
    (∀ (s : Settings Float) (path : String) (store : Store) (format : SettingsFormat),
      SettingsFormat.ofPath? path = some format → store.Writable path →
        ((s.save path store).2 = .ok () ↔ s.Valid) ∧
        (s.Valid → (format = .json → ∀ x ∈ s.numbers, Json.Kept x) →
          load (s.save path store).1.readText path = .ok s)) ∧
      (∀ (s : Settings Float) (path : String) (store : Store),
        (¬s.Valid ∨ SettingsFormat.ofPath? path = none → (s.save path store).2 ≠ .ok ()) ∧
        ((s.save path store).2 ≠ .ok () → (s.save path store).1 = store)) ∧
      (∀ (source : TextSource) (path : String) (s : Settings Float),
        load source path = .ok s → s.Valid) ∧
      ∀ (format : SettingsFormat) (text : String) (s : Settings Float),
        ofText format text = .ok s → s.Valid := by
  refine ⟨?_, ?_, fun _ _ _ => valid_of_load, fun _ _ _ => valid_of_ofText⟩
  · intro s path store format hformat hwritable
    constructor
    · constructor
      · exact fun hsaved => (of_save hsaved).1
      · intro hvalid
        obtain ⟨store', -, hsave⟩ := save_of_valid hformat hwritable hvalid
        rw [hsave]
    · intro hvalid hkept
      obtain ⟨store', hwrite, hsave⟩ := save_of_valid hformat hwritable hvalid
      rw [hsave]
      exact load_of_writeText hformat hwrite hvalid hkept
  · refine fun s path store => ⟨?_, save_unchanged⟩
    rintro hrefused hsaved
    obtain ⟨hvalid, format, hformat⟩ := of_save hsaved
    obtain hinvalid | hother := hrefused
    · exact hinvalid hvalid
    · exact absurd (hformat.symm.trans hother) (Option.some_ne_none format)

/-- The settings of a cutter of six millimetres. -/
def sixMillimetres : Settings Float := ⟨⟨6, 40, 12.5, 0.05⟩, ⟨25, 10.5⟩⟩

/-- They are saved in an empty store and loaded again, in either format; without a diameter they are
not saved, nor as a text. -/
theorem sixMillimetres_save_load :
    ((sixMillimetres.save "config.json" ⟨[]⟩).2 = .ok () ∧
      load (sixMillimetres.save "config.json" ⟨[]⟩).1.readText "config.json" = .ok sixMillimetres) ∧
    ((sixMillimetres.save "config.toml" ⟨[]⟩).2 = .ok () ∧
      load (sixMillimetres.save "config.toml" ⟨[]⟩).1.readText "config.toml" = .ok sixMillimetres) ∧
    sixMillimetres.Valid ∧
    (Settings.save { sixMillimetres with tool.cutterDiameter := 0 } "config.json" ⟨[]⟩).1 = ⟨[]⟩ ∧
    (sixMillimetres.save "config.txt" ⟨[]⟩).1 = ⟨[]⟩ := by
  have hvalid : sixMillimetres.Valid := by decide +kernel
  have hjson : (⟨[]⟩ : Store).Writable "config.json" :=
    ⟨.empty, _, Store.write_eq_ok.mpr ⟨["config.json"], by decide +kernel,
      by simp [Store.get?, Place.isAround], by decide +kernel, rfl⟩⟩
  have htoml : (⟨[]⟩ : Store).Writable "config.toml" :=
    ⟨.empty, _, Store.write_eq_ok.mpr ⟨["config.toml"], by decide +kernel,
      by simp [Store.get?, Place.isAround], by decide +kernel, rfl⟩⟩
  obtain ⟨hsaved, hloaded⟩ :=
    save_load.1 sixMillimetres "config.json" ⟨[]⟩ .json (by decide +kernel) hjson
  obtain ⟨hsaved', hloaded'⟩ :=
    save_load.1 sixMillimetres "config.toml" ⟨[]⟩ .toml (by decide +kernel) htoml
  have hload := hloaded hvalid fun _ => by decide +kernel
  obtain ⟨hrefused, hunchanged⟩ := save_load.2.1
    { sixMillimetres with tool.cutterDiameter := 0 } "config.json" ⟨[]⟩
  obtain ⟨hrefused', hunchanged'⟩ := save_load.2.1 sixMillimetres "config.txt" ⟨[]⟩
  have hload' := hloaded' hvalid fun hne => absurd hne (by decide)
  exact ⟨⟨hsaved.mpr hvalid, hload⟩, ⟨hsaved'.mpr hvalid, hload'⟩,
    save_load.2.2.1 _ _ _ hload, hunchanged (hrefused (.inl (by decide +kernel))),
    hunchanged' (hrefused' (.inr (by decide +kernel)))⟩

end Settings

end Toolpath
