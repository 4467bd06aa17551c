import Toolpath.Store

/-!
# Files that were written

A file that is written is read as it was written, and by the same path: a write changes what stands
in one place and leaves every directory on the way there.

* `Store.Writable` — a file can be written under a path
* `Store.get?_put_of_ne` — what stands elsewhere still stands there
* `Store.follow_put`, `Store.locate_put` — paths still lead where they led
* `Store.read_write`, `Store.readText_writeText` — a file is read as it was written
-/

namespace Toolpath.Store

variable {s s' : Store} {place p q : Place} {path : String}

/-- A file can be written under this path, whatever it holds. -/
def Writable (s : Store) (path : String) : Prop := ∃ bytes s', s.write path bytes = .ok s'

/-! ## One place changed -/

theorem get?_put_self (s : Store) (place : Place) (entry : Entry) :
    (s.put place entry).get? place = some entry := by
  simp [get?, put]

theorem find?_put (hne : p ≠ place) (entry : Entry) :
    (s.put place entry).entries.find? (·.1 == p) = s.entries.find? (·.1 == p) := by
  -- the new entry is of another place, and so is every entry that is left out for it
  rw [put, List.find?_cons_of_neg (by simpa using hne.symm), List.find?_filter]
  congr 1
  funext e
  by_cases he : e.1 = p
  · simp [he, hne]
  · simp [he]

/-- What stands elsewhere still stands there. -/
theorem get?_put_of_ne (hne : p ≠ place) (entry : Entry) {e : Entry}
    (h : s.get? p = some e) : (s.put place entry).get? p = some e := by
  unfold get? at h ⊢
  rw [find?_put hne entry]
  split at h
  · exact h
  · split at h
    · -- a directory stands around an entry, which is still there or is the one that is replaced
      next hdirectory =>
      rw [if_pos]
      · exact h
      · simp only [Bool.or_eq_true, List.any_eq_true] at hdirectory ⊢
        obtain haround | ⟨other, hother, hprefix⟩ := hdirectory
        · exact .inl haround
        · by_cases hplace : other.1 = place
          · exact .inr ⟨(place, entry), List.mem_cons_self, hplace ▸ hprefix⟩
          · exact .inr ⟨other, List.mem_cons_of_mem _ (by simpa [hother] using hplace), hprefix⟩
    · cases h

/-- A path that was followed is followed to the same place when no directory has gone. -/
theorem follow_put (entry : Entry) (hplace : s.get? place ≠ some .directory)
    {steps : List String} (h : s.follow p steps = .ok q) :
    (s.put place entry).follow p steps = .ok q := by
  induction steps generalizing p with
  | nil => exact h
  | cons step steps ih =>
    unfold follow at h ⊢
    split at h
    · cases h
    · cases h
    · -- the way leads on through a directory only, and the place that is written is none
      next hdirectory =>
      have hne : p ≠ place := fun heq => hplace (heq ▸ hdirectory)
      rw [get?_put_of_ne hne entry hdirectory]
      dsimp only
      split at h
      · cases h
      · next hshort =>
        rw [if_neg hshort]
        exact ih h

theorem locate_put (entry : Entry) (hplace : s.get? place ≠ some .directory)
    (h : s.locate path = .ok q) : (s.put place entry).locate path = .ok q := by
  unfold locate at h ⊢
  split at h
  · cases h
  · next hzero =>
    rw [if_neg hzero]
    split at h
    · cases h
    · next hempty =>
      rw [if_neg hempty]
      split at h
      · cases h
      · next hlong =>
        rw [if_neg hlong]
        exact follow_put entry hplace h

/-! ## Reading what was written -/

/-- What a file needs to be written: a place that is no directory and is not meant as one. -/
theorem write_eq_ok {bytes : ByteArray} :
    s.write path bytes = .ok s' ↔ ∃ place, s.locate path = .ok place ∧
      s.get? place ≠ some .directory ∧ Path.namesDirectory path = false ∧
        s.put place (.file bytes) = s' := by
  unfold write
  cases hlocate : s.locate path with
  | error e => simp
  | ok place =>
    dsimp only
    constructor
    · intro h
      split at h
      · cases h
      · cases h
      · next hname hdirectory => exact ⟨place, rfl, hdirectory, hname, Except.ok.inj h⟩
    · rintro ⟨_, hplace, hdirectory, hname, rfl⟩
      cases hplace
      split
      · next heq => exact absurd heq hdirectory
      · next hslash _ => exact absurd (hname.symm.trans hslash) Bool.false_ne_true
      · rfl

/-- Whether a file can be written does not depend on what it is to hold. -/
theorem Writable.write (h : s.Writable path) (bytes : ByteArray) :
    ∃ s', s.write path bytes = .ok s' := by
  obtain ⟨_, _, hwrite⟩ := h
  obtain ⟨place, hlocate, hdirectory, hname, -⟩ := write_eq_ok.mp hwrite
  exact ⟨_, write_eq_ok.mpr ⟨place, hlocate, hdirectory, hname, rfl⟩⟩

/-- **A file is read as it was written.** -/
theorem read_write {bytes : ByteArray} (h : s.write path bytes = .ok s') :
    s'.read path = .ok bytes := by
  obtain ⟨place, hlocate, hdirectory, hname, rfl⟩ := write_eq_ok.mp h
  rw [read, locate_put _ hdirectory hlocate]
  dsimp only
  rw [get?_put_self]
  exact if_neg (by simp [hname])

/-- A text is read as it was written. -/
theorem readText_writeText {text : String} (h : s.writeText path text = .ok s') :
    s'.readText path = .ok text := by
  have hdecode : String.fromUTF8? text.toUTF8 = some text := dif_pos text.isValidUTF8
  rw [readText, read_write h]
  dsimp only
  rw [hdecode]

end Toolpath.Store
