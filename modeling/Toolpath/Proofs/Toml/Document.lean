import Toolpath.Proofs.Toml.Literal

/-!
# Lines of a TOML document

A header line opens its table and a line with a key and a float adds that to the table that is open.
Neither depends on the lines behind it, so a document is read line by line as it was written.

* `line?_header`, `line?_pair` — what one line does
* `lines?_of_line?` — the lines behind it are read from there
* `OpenDocument.add_last` — a key is added to the table that was opened last
-/

namespace Toolpath.Toml

/-! ## Keys -/

/-- A name that can stand as a key without quotes. -/
structure Bare (name : List Char) : Prop where
  ne_nil : name ≠ []
  bare : ∀ c ∈ name, isBare c = true

instance (name : List Char) : Decidable (Bare name) :=
  decidable_of_iff (name ≠ [] ∧ name.all isBare = true)
    ⟨fun h => ⟨h.1, List.all_eq_true.mp h.2⟩, fun h => ⟨h.ne_nil, List.all_eq_true.mpr h.bare⟩⟩

theorem isBlank_of_isBare {c : Char} (h : isBare c = true) : isBlank c = false := by
  unfold isBlank
  rw [Bool.or_eq_false_iff]
  constructor
  all_goals
    rw [beq_eq_false_iff_ne]
    rintro rfl
    exact absurd h (by decide)

theorem Bare.skipBlanks {name : List Char} (h : Bare name) (rest : List Char) :
    skipBlanks (name ++ rest) = name ++ rest := by
  obtain ⟨c, cs, rfl⟩ := List.exists_cons_of_ne_nil h.ne_nil
  exact List.dropWhile_cons_of_neg (by simp [isBlank_of_isBare (h.bare c List.mem_cons_self)])

theorem Bare.simpleKey? {name : List Char} (h : Bare name) {rest : List Char}
    (hrest : ∀ c ∈ rest.head?, isBare c = false) :
    simpleKey? (name ++ rest) = some (String.ofList name, rest) := by
  obtain ⟨htake, hdrop⟩ := Digits.takeWhile_append_stop h.bare hrest
  obtain ⟨c, cs, rfl⟩ := List.exists_cons_of_ne_nil h.ne_nil
  have hc := h.bare c List.mem_cons_self
  unfold Toml.simpleKey?
  split
  · next heq => exact absurd hc (by rw [(List.cons.inj heq).1]; decide)
  · next heq => exact absurd hc (by rw [(List.cons.inj heq).1]; decide)
  · rw [htake, hdrop]
    rfl

/-- A bare name is a key. -/
theorem Bare.key? {name : List Char} (h : Bare name) {rest : List Char}
    (hrest : ∀ c ∈ rest.head?, isBare c = false)
    (hdot : ∀ c ∈ (Toml.skipBlanks rest).head?, c ≠ '.') :
    key? (name ++ rest) = some (([], String.ofList name), Toml.skipBlanks rest) := by
  have hpath : keyPath (name ++ rest) = some ([String.ofList name], Toml.skipBlanks rest) := by
    rw [keyPath, h.skipBlanks, h.simpleKey? hrest]
    dsimp only
    split
    · next heq => exact absurd rfl (hdot '.' (by rw [heq]; rfl))
    · rfl
  rw [Toml.key?, hpath]
  rfl

/-! ## Lines -/

/-- No blank begins the text of a float. -/
theorem skipBlanks_text {x : Float} (hx : x.isFinite = true) (rest : List Char) :
    skipBlanks (' ' :: (NumberFormat.toml.text x ++ rest)) = NumberFormat.toml.text x ++ rest := by
  obtain ⟨c, cs, htext, hc⟩ := text_head hx
  have hblank : isBlank c = false := by
    obtain rfl | hdigit := hc
    · rfl
    · exact isBlank_of_isBare (by simp [isBare, hdigit])
  rw [htext]
  show skipBlanks (c :: cs ++ rest) = c :: cs ++ rest
  exact List.dropWhile_cons_of_neg (by simp [hblank])

theorem lineEnd?_newline (rest : List Char) : lineEnd? ('\n' :: rest) = some rest := rfl

/-- A header line opens its table. -/
theorem line?_header {name : List Char} (h : Bare name) (d : OpenDocument) (rest : List Char) :
    line? d ('[' :: (name ++ ']' :: '\n' :: rest)) =
      (d.openTable [] (String.ofList name)).map fun d => (d, rest) := by
  have hkey : key? (name ++ ']' :: '\n' :: rest) =
      some (([], String.ofList name), ']' :: '\n' :: rest) :=
    h.key? (by simp [isBare, Digits.isDigit]) (by simp [skipBlanks, isBlank])
  have hheader : line? d ('[' :: (name ++ ']' :: '\n' :: rest)) =
      header? false d (name ++ ']' :: '\n' :: rest) := by
    obtain ⟨c, cs, rfl⟩ := List.exists_cons_of_ne_nil h.ne_nil
    have hc := h.bare c List.mem_cons_self
    have hblank : skipBlanks ('[' :: (c :: cs ++ ']' :: '\n' :: rest)) =
        '[' :: (c :: cs ++ ']' :: '\n' :: rest) := rfl
    unfold line?
    rw [hblank]
    split
    · next heq => cases heq
    · next heq => cases heq
    · next heq => cases heq
    · next heq => cases heq
    · next heq =>
      obtain ⟨rfl, -⟩ := List.cons.inj (List.cons.inj heq).2
      exact absurd hc (by decide)
    · next heq => rw [← (List.cons.inj heq).2]
    · next hother => exact absurd rfl (hother _)
  rw [hheader, header?, hkey]
  simp [mark?, lineEnd?_newline, Option.map_eq_bind]

/-- A line with a key and a float adds it to the table that is open. -/
theorem line?_pair {name : List Char} (h : Bare name) {x : Float} (hx : x.isFinite = true)
    (d : OpenDocument) (rest : List Char) :
    line? d (name ++ ' ' :: '=' :: ' ' :: (NumberFormat.toml.text x ++ '\n' :: rest)) =
      (d.add [] (String.ofList name) (.real x)).map fun d => (d, rest) := by
  have hkey : key? (name ++ ' ' :: '=' :: ' ' :: (NumberFormat.toml.text x ++ '\n' :: rest)) =
      some (([], String.ofList name), '=' :: ' ' :: (NumberFormat.toml.text x ++ '\n' :: rest)) :=
    h.key? (by simp [isBare, Digits.isDigit]) (by simp [skipBlanks, isBlank])
  have hpair : ∀ tail, line? d (name ++ tail) = pair? d (name ++ tail) := by
    intro tail
    obtain ⟨c, cs, rfl⟩ := List.exists_cons_of_ne_nil h.ne_nil
    have hc := h.bare c List.mem_cons_self
    unfold line?
    rw [h.skipBlanks]
    split
    all_goals first
      | rfl
      | next heq => exact absurd hc (by rw [(List.cons.inj heq).1]; decide)
      | next heq => cases heq
  have hvalue : value? (depthLimit - 1)
      (skipBlanks (' ' :: (NumberFormat.toml.text x ++ '\n' :: rest))) =
        some (.real x, '\n' :: rest) := by
    rw [skipBlanks_text hx]
    exact value?_text hx _ (ends_newline rest)
  rw [hpair, pair?, hkey]
  simp [mark?, hvalue, lineEnd?_newline, Option.map_eq_bind]

theorem lines?_of_line? {d d' : OpenDocument} {cs rest : List Char}
    (h : line? d cs = some (d', rest)) (hrest : rest.length < cs.length) :
    lines? d cs = lines? d' rest := by
  have hne : cs.isEmpty = false := by
    cases cs with
    | nil => simp at hrest
    | cons c cs => rfl
  rw [lines?, if_neg (by simp [hne]), h]
  exact if_pos hrest

/-! ## Tables -/

namespace Entries

theorem get?_append {es : Entries} {key : String} (h : es.get? key = none) (more : Entries) :
    get? (es ++ more) key = more.get? key := by
  have hfind : es.find? (·.1 == key) = none := by simpa [get?] using h
  rw [get?, List.find?_append, hfind]
  rfl

theorem put_last {es : Entries} {key : String} (h : es.get? key = none) (v w : Toml) :
    put (es ++ [(key, v)]) key w = es ++ [(key, w)] := by
  have hother : ∀ e ∈ es, e.1 ≠ key := by simpa [get?] using h
  have hkeep : es.map (fun e => if e.1 == key then (key, w) else e) = es :=
    (List.map_congr_left fun e he => if_neg (by simpa using hother e he)).trans (List.map_id es)
  rw [put, if_pos (by simp), List.map_append, hkeep]
  simp

end Entries

namespace OpenDocument

/-- A header with a new name opens an empty table. -/
theorem openTable_new {d : OpenDocument} {name : String} (h : d.root.get? name = none) :
    d.openTable [] name = some ⟨d.root ++ [(name, .table .defined [])], [name]⟩ := by
  simp [openTable, Entries.under, Entries.openTable, h]

/-- A new key is added to the table that was opened last. -/
theorem add_last {root es : Entries} {name key : String} (hname : root.get? name = none)
    (hkey : es.get? key = none) (v : Toml) :
    add ⟨root ++ [(name, .table .defined es)], [name]⟩ [] key v =
      some ⟨root ++ [(name, .table .defined (es ++ [(key, v)]))], [name]⟩ := by
  have hlast : Entries.get? (root ++ [(name, .table .defined es)]) name =
      some (.table .defined es) := by
    rw [Entries.get?_append hname]
    simp [Entries.get?]
  simp [add, Entries.under, hlast, Entries.add, Entries.addDotted, hkey, Entries.put_last hname]

end OpenDocument

end Toolpath.Toml
