import Toolpath.Settings.Text
import Toolpath.Proofs.Json.Record
import Toolpath.Proofs.Toml.Document

/-!
# Settings, written and read back

Settings are written as two tables with all their members, so what is read back is laid over the
standard settings and leaves nothing of them.

* `Tool.withMember_members`, `Feeds.withMember_members` — all members laid over anything
* `Draft.overlay_object` — a written record is laid over another member by member
* `Settings.ofJsonText_jsonText` — settings come back from JSON
* `Toml.lines?_tomlTable` — a written table is read as it stands in the document
* `Settings.ofTomlText?_tomlText` — settings come back from TOML
-/

namespace Toolpath

/-- Steps that each have a result, one after the other. -/
theorem foldlM_eq_pure {m : Type → Type} [Monad m] [LawfulMonad m] {σ β : Type}
    {step : σ → β → m σ} {next : σ → β → σ} {l : List β}
    (h : ∀ b ∈ l, ∀ s, step s b = pure (next s b)) (s : σ) :
    l.foldlM step s = pure (l.foldl next s) := by
  induction l generalizing s with
  | nil => rfl
  | cons b l ih =>
    obtain ⟨hb, hl⟩ := List.forall_mem_cons.mp h
    rw [List.foldlM_cons, hb, pure_bind, ih hl, List.foldl_cons]

/-! ## Members -/

theorem Tool.names_members (t : Tool Float) : t.members.map (·.1) = memberNames := rfl

theorem Feeds.names_members (f : Feeds Float) : f.members.map (·.1) = memberNames := rfl

theorem Tool.withMember_members (t u : Tool Float) :
    t.members.foldl (fun u m => u.withMember m.1 m.2) u = t := by
  simp [members, withMember]

theorem Feeds.withMember_members (f g : Feeds Float) :
    f.members.foldl (fun g m => g.withMember m.1 m.2) g = f := by
  simp [members, withMember]

/-- The floats of settings. -/
def Settings.numbers (s : Settings Float) : List Float :=
  s.tool.members.map (·.2) ++ s.feeds.members.map (·.2)

/-! ## JSON -/

namespace Json

/-- A table of floats, as it is written. -/
def table (members : List (String × Float)) : Json :=
  .object (members.map fun m => (m.1, .real m.2))

theorem Draft.float_ofReal {x : Float} (h : Kept x) : (Draft.ofReal x).float = .ok x := by
  obtain ⟨hfinite, hfloat⟩ := kept_iff.mp h
  have hvalue : (Numeral.ofFloat x).value? = some (.real x) := by
    rw [Numeral.value?, Numeral.ofFloat, Numeral.integer?_ofDecimal, ← Numeral.ofFloat, hfloat]
    rfl
  rw [ofReal, if_pos hfinite, float, hvalue]
  rfl

namespace Draft

variable {σ : Type}

/-- Fields of known names, each once, are laid over a record one after the other. -/
theorem overlayFields_ofFields {names : List String} {assign : Assign σ}
    {fields : List (String × Json)} {given : List String} (hnames : ∀ f ∈ fields, f.1 ∈ names)
    (hnodup : (given ++ fields.map (·.1)).Nodup) (s : σ) :
    overlayFields names assign given s (ofFields fields) =
      fields.foldlM (fun s f => assign f.1 (.ofJson f.2) s) s := by
  induction fields generalizing given s with
  | nil => rfl
  | cons f fields ih =>
    obtain ⟨hname, hnames⟩ := List.forall_mem_cons.mp hnames
    rw [List.map_cons, List.nodup_middle] at hnodup
    have hnew : f.1 ∉ given := fun h =>
      (List.nodup_cons.mp hnodup).1 (List.mem_append_left _ h)
    have hknown : names.contains f.1 = true := by simpa using hname
    rw [List.foldlM_cons]
    show overlayFields names assign given s ((some f.1, .ofJson f.2) :: ofFields fields) = _
    rw [overlayFields, if_pos hknown, if_neg (by simpa using hnew)]
    cases assign f.1 (.ofJson f.2) s with
    | error e => rfl
    | ok t => exact ih hnames hnodup t

/-- A written record is laid over another field by field. -/
theorem overlay_object {names : List String} {assign : Assign σ} {fields : List (String × Json)}
    (hnames : fields.map (·.1) = names) (hnodup : names.Nodup) (s : σ) :
    (Draft.ofJson (.object fields)).overlay names assign s =
      fields.foldlM (fun s f => assign f.1 (.ofJson f.2) s) s := by
  subst hnames
  show (overlayFields _ assign [] s (ofFields fields)).bind (unlessBroken none) = _
  rw [overlayFields_ofFields (fun f hf => List.mem_map_of_mem hf) hnodup]
  cases fields.foldlM (fun s f => assign f.1 (.ofJson f.2) s) s <;> rfl

/-- Floats that are kept are laid over a record as they were written. -/
theorem overlay_members {names : List String} (withMember : σ → String → Float → σ)
    {members : List (String × Float)} (hkept : ∀ m ∈ members, Kept m.2)
    (hnames : members.map (·.1) = names) (hnodup : names.Nodup) (s : σ) :
    (Draft.ofJson (table members)).overlay names
        (fun name d s => d.float.map (withMember s name)) s =
      .ok (members.foldl (fun s m => withMember s m.1 m.2) s) := by
  have hobject : (members.map fun m => (m.1, Json.real m.2)).map (·.1) = names := by
    rw [List.map_map, ← hnames]
    rfl
  rw [table, overlay_object hobject hnodup, List.foldlM_map]
  refine foldlM_eq_pure (fun m hm t => ?_) s
  show (Draft.ofReal m.2).float.map (withMember t m.1) = _
  rw [float_ofReal (hkept m hm)]
  rfl

end Draft

end Json

namespace Settings

open Json

theorem toJson_eq (s : Settings Float) :
    s.toJson = .object [("tool", table s.tool.members), ("feeds", table s.feeds.members)] := rfl

theorem overlayMember_tool {t : Tool Float} (h : ∀ m ∈ t.members, Kept m.2) (s : Settings Float) :
    overlayMember "tool" (.ofJson (table t.members)) s = .ok { s with tool := t } := by
  have htool := Draft.overlay_members Tool.withMember h t.names_members (by decide)
    .standard
  rw [Tool.withMember_members] at htool
  show Except.map (fun t => { s with tool := t }) _ = _
  rw [htool]
  rfl

theorem overlayMember_feeds {f : Feeds Float} (h : ∀ m ∈ f.members, Kept m.2)
    (s : Settings Float) :
    overlayMember "feeds" (.ofJson (table f.members)) s = .ok { s with feeds := f } := by
  have hfeeds := Draft.overlay_members Feeds.withMember h f.names_members (by decide)
    .standard
  rw [Feeds.withMember_members] at hfeeds
  show Except.map (fun f => { s with feeds := f }) _ = _
  rw [hfeeds]
  rfl

/-- **Settings come back from JSON.** -/
theorem ofJsonText_jsonText {s : Settings Float} (h : ∀ x ∈ s.numbers, Kept x) :
    ofJsonText s.jsonText = .ok s := by
  obtain ⟨htool, hfeeds⟩ := List.forall_mem_append.mp h
  rw [List.forall_mem_map] at htool hfeeds
  have hoverlay : (Draft.ofJson s.toJson).overlay memberNames overlayMember .standard = .ok s := by
    rw [toJson_eq, Draft.overlay_object]
    · simp only [List.foldlM_cons, List.foldlM_nil, overlayMember_tool htool,
        overlayMember_feeds hfeeds]
      rfl
    · rfl
    · decide
  rw [ofJsonText, readOverlay, jsonText, draft_spread, hoverlay]
  rfl

end Settings

/-! ## TOML -/

namespace Toml

open Settings (tomlLine tomlTable)

/-- The entries of a table of floats, as they are read. -/
def entries (members : List (String × Float)) : Entries := members.map fun m => (m.1, .real m.2)

/-- Names and floats that can be written as a table. -/
structure Writable (members : List (String × Float)) : Prop where
  bare : ∀ m ∈ members, Bare m.1.toList
  finite : ∀ m ∈ members, m.2.isFinite = true
  nodup : (members.map (·.1)).Nodup

theorem lines?_tomlLine {name : String} (hname : Bare name.toList) {x : Float}
    (hx : x.isFinite = true) {d d' : OpenDocument} (hadd : d.add [] name (.real x) = some d')
    (rest : List Char) :
    lines? d (tomlLine name x ++ rest) = lines? d' rest := by
  have hline : tomlLine name x ++ rest =
      name.toList ++ ' ' :: '=' :: ' ' :: (NumberFormat.toml.text x ++ '\n' :: rest) := by
    simp [tomlLine]
  have hread := line?_pair hname hx d rest
  rw [String.ofList_toList, hadd] at hread
  rw [hline]
  refine lines?_of_line? hread ?_
  simp only [List.length_append, List.length_cons]
  omega

theorem get?_entries_eq_none {members : List (String × Float)} {key : String}
    (h : key ∉ members.map (·.1)) : (entries members).get? key = none := by
  have hother : ∀ m ∈ members, m.1 ≠ key := fun m hm heq => h (heq ▸ List.mem_map_of_mem hm)
  simpa [Entries.get?, entries] using fun name x hm => hother (name, x) hm

/-- The members of the table that is open are read one after the other. -/
theorem lines?_members {root : Entries} {name : String} (hroot : root.get? name = none)
    {before members : List (String × Float)} (h : Writable (before ++ members))
    (rest : List Char) :
    lines? ⟨root ++ [(name, .table .defined (entries before))], [name]⟩
        (members.flatMap (fun m => tomlLine m.1 m.2) ++ rest) =
      lines? ⟨root ++ [(name, .table .defined (entries (before ++ members)))], [name]⟩ rest := by
  induction members generalizing before with
  | nil => rw [List.append_nil, List.flatMap_nil, List.nil_append]
  | cons m members ih =>
    have hm : m ∈ before ++ m :: members := by simp
    have hnew : m.1 ∉ before.map (·.1) := by
      have hnodup := h.nodup
      rw [List.map_append, List.map_cons, List.nodup_middle] at hnodup
      exact fun hmem => (List.nodup_cons.mp hnodup).1 (List.mem_append_left _ hmem)
    have hadd := OpenDocument.add_last hroot (get?_entries_eq_none hnew) (.real m.2)
    rw [List.flatMap_cons, List.append_assoc, lines?_tomlLine (h.bare m hm) (h.finite m hm) hadd]
    have hentries : entries before ++ [(m.1, .real m.2)] = entries (before ++ [m]) := by
      simp [entries]
    rw [List.append_cons] at h
    rw [hentries, List.append_cons before m members]
    exact ih h

/-- **A written table is read as it stands in the document.** -/
theorem lines?_tomlTable {d : OpenDocument} {name : String} (hname : Bare name.toList)
    (hroot : d.root.get? name = none) {members : List (String × Float)} (h : Writable members)
    (rest : List Char) :
    lines? d (tomlTable name members ++ rest) =
      lines? ⟨d.root ++ [(name, .table .defined (entries members))], [name]⟩ rest := by
  have htable : tomlTable name members ++ rest =
      '[' :: (name.toList ++ ']' :: '\n' ::
        (members.flatMap (fun m => tomlLine m.1 m.2) ++ rest)) := by
    simp [tomlTable]
  have hread := line?_header hname d (members.flatMap (fun m => tomlLine m.1 m.2) ++ rest)
  rw [String.ofList_toList, OpenDocument.openTable_new hroot] at hread
  rw [htable, lines?_of_line? hread]
  · exact lines?_members hroot (show Writable ([] ++ members) from h) rest
  · simp only [List.length_append, List.length_cons]
    omega

theorem writable_of_names {members : List (String × Float)} {names : List String}
    (hfinite : ∀ m ∈ members, m.2.isFinite = true) (hnames : members.map (·.1) = names)
    (hbare : ∀ name ∈ names, Bare name.toList) (hnodup : names.Nodup) : Writable members where
  bare := fun _ hm => hbare _ (hnames ▸ List.mem_map_of_mem hm)
  finite := hfinite
  nodup := hnames ▸ hnodup

theorem lines?_newline (d : OpenDocument) (rest : List Char) :
    lines? d ('\n' :: rest) = lines? d rest :=
  lines?_of_line? rfl (Nat.lt_succ_self _)

theorem lines?_nil (d : OpenDocument) : lines? d [] = some d.root := by rw [lines?]; rfl

end Toml

namespace Settings

open Toml (entries)

/-- The document that settings are written as. -/
theorem read?_tomlText {s : Settings Float} (h : ∀ x ∈ s.numbers, x.isFinite = true) :
    Toml.read? s.tomlText = some [("tool", .table .defined (entries s.tool.members)),
      ("feeds", .table .defined (entries s.feeds.members))] := by
  obtain ⟨htool, hfeeds⟩ := List.forall_mem_append.mp h
  rw [List.forall_mem_map] at htool hfeeds
  have htool := Toml.writable_of_names htool s.tool.names_members (by decide +kernel)
    (by decide)
  have hfeeds := Toml.writable_of_names hfeeds s.feeds.names_members (by decide +kernel)
    (by decide)
  have hmark : ¬some '[' = some (Char.ofNat 0xFEFF) := by decide
  have hend : tomlTable "feeds" s.feeds.members = tomlTable "feeds" s.feeds.members ++ [] :=
    (List.append_nil _).symm
  rw [Toml.read?, tomlText, String.toList_ofList, hend]
  refine (congrArg _ (if_neg hmark)).trans ?_
  rw [Toml.lines?_tomlTable (by decide +kernel) rfl htool, Toml.lines?_newline,
    Toml.lines?_tomlTable (by decide +kernel) rfl hfeeds, Toml.lines?_nil]
  rfl

/-- A record is laid over another member by member. -/
theorem tomlRecord?_entries {σ : Type} {names : List String} (withMember : σ → String → Float → σ)
    {members : List (String × Float)} (hnames : members.map (·.1) = names) (hnodup : names.Nodup)
    (s : σ) (origin : Toml.Origin) :
    tomlRecord? names withMember s (some (.table origin (entries members))) =
      some (members.foldl (fun s m => withMember s m.1 m.2) s) := by
  subst hnames
  have hfind : ∀ m ∈ members, (entries members).get? m.1 = some (.real m.2) := by
    intro m hm
    have hentry : (m.1, Toml.real m.2) ∈ entries members := List.mem_map_of_mem hm
    have hkeys : (entries members).map (·.1) = members.map (·.1) := List.map_map
    rw [Toml.Entries.get?, Json.find?_of_nodup (hkeys ▸ hnodup) hentry]
    rfl
  show (members.map (·.1)).foldlM _ s = _
  rw [List.foldlM_map]
  refine foldlM_eq_pure (fun m hm t => ?_) s
  rw [hfind m hm]
  rfl

/-- **Settings come back from TOML.** -/
theorem ofTomlText?_tomlText {s : Settings Float} (h : ∀ x ∈ s.numbers, x.isFinite = true) :
    ofTomlText? s.tomlText = some s := by
  have htool := tomlRecord?_entries Tool.withMember
    s.tool.names_members (by decide) .standard .defined
  have hfeeds := tomlRecord?_entries Feeds.withMember
    s.feeds.names_members (by decide) .standard .defined
  rw [Tool.withMember_members] at htool
  rw [Feeds.withMember_members] at hfeeds
  rw [ofTomlText?, read?_tomlText h]
  simp [ofToml?, Toml.Entries.get?, htool, hfeeds]

end Settings

end Toolpath
