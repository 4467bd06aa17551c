import Toolpath.Proofs.Accepted
import Toolpath.Proofs.Feed
import Toolpath.Proofs.Gcode.Line
import Toolpath.Proofs.Settings.File

/-!
# Feeds on a page

A page holds the feed of each move that has one, with one decimal and nothing else behind the letter
F. One decimal does not show every feed: up to a twentieth of a unit per minute it is zero, and a
speed that overflows when it is counted per minute is no number at all.

* `Gcode.feedTexts` — what stands behind the letter F on a page
* `Gcode.feedTexts_page` — it is the feeds of the moves, whatever the style
* `Exact.Legible` — a feed that is seen to be positive with one decimal
* `Compilation.feeds_positive_iff` — all feeds of a page are positive exactly if those of its moves
  are legible
-/

namespace Toolpath

/-! ## The words of a page -/

namespace Gcode

/-- The value of a feed word. -/
def feedText? : List Char → Option (List Char)
  | 'F' :: value => some value
  | _ => none

/-- The values of all feed words of a text, whose words are set apart by blanks. -/
def feedTexts (cs : List Char) : List (List Char) :=
  (cs.splitOnP Text.isBlank).filterMap feedText?

/-- A blank belongs to no word. -/
theorem feedTexts_append_cons {c : Char} (hc : Text.isBlank c = true) (as bs : List Char) :
    feedTexts (as ++ c :: bs) = feedTexts as ++ feedTexts bs := by
  unfold feedTexts
  rw [List.splitOnP_append_cons as bs hc, List.filterMap_append]

theorem feedTexts_word {w : List Char} (h : ∀ c ∈ w, Text.isBlank c = false) :
    feedTexts w = (feedText? w).toList := by
  unfold feedTexts
  rw [List.splitOnP_eq_singleton h]
  cases hw : feedText? w <;> simp [hw]

theorem feedText?_of_ne {letter : Char} (h : letter ≠ 'F') (value : List Char) :
    feedText? (letter :: value) = none := by
  unfold feedText?
  split
  · rename_i heq
    exact absurd (List.cons.inj heq).1 h
  · rfl

theorem feedTexts_append_word (cs : List Char) {letter : Char} {value : List Char}
    (hletter : Text.isBlank letter = false) (hvalue : ∀ c ∈ value, Text.isBlank c = false) :
    feedTexts (cs ++ ' ' :: letter :: value) =
      feedTexts cs ++ (feedText? (letter :: value)).toList := by
  have hword : ∀ c ∈ letter :: value, Text.isBlank c = false :=
    List.forall_mem_cons.mpr ⟨hletter, hvalue⟩
  rw [feedTexts_append_cons (by decide), feedTexts_word hword]

end Gcode

/-! ## The feeds of a page -/

namespace Exact

theorem solid_fixed (places : ℕ) (e : Exact) : ∀ c ∈ e.fixed places, Text.isBlank c = false := by
  have hnan : nanText.all (!Text.isBlank ·) = true := by decide
  have hinfinite : ∀ negative, (infiniteText negative).all (!Text.isBlank ·) = true := by decide
  cases e with
  | nan => simpa [fixed] using List.all_eq_true.mp hnan
  | infinite negative => simpa [fixed] using List.all_eq_true.mp (hinfinite negative)
  | finite negative n d =>
    intro c hc
    have hnumeral : c ∈ (Decimal.ofUnits places negative (scaled places n d)).numeral := by
      simpa [Decimal.numeral, Decimal.ofUnits, fixed] using hc
    exact (Line.plain_of_inNumeral (Line.inNumeral_numeral _ c hnumeral)).2

theorem solid_fixedUnsignedZero (places : ℕ) (e : Exact) :
    ∀ c ∈ e.fixedUnsignedZero places, Text.isBlank c = false := by
  cases e with
  | nan => exact solid_fixed places .nan
  | infinite negative => exact solid_fixed places (.infinite negative)
  | finite negative n d =>
    -- the text of the same magnitude, with another sign
    exact solid_fixed places (.finite (negative && scaled places n d != 0) n d)

end Exact

namespace Gcode

variable {α : Type} [ExactValue α]

theorem feedTexts_append_coordinate {style : Style} {letter : Char} {value : Option α}
    {text : List Char} (h : coordinate style letter value = .ok text)
    (hletter : letter ∈ letters) (hfeed : letter ≠ 'F') (cs : List Char) :
    feedTexts (cs ++ text) = feedTexts cs := by
  cases value with
  | none =>
    cases h
    rw [List.append_nil]
  | some v =>
    rw [coordinate] at h
    split at h
    · cases h
    · cases h
      rw [feedTexts_append_word cs (Line.plain_of_letter hletter).2.1
        (Exact.solid_fixedUnsignedZero _ _), feedText?_of_ne hfeed]
      simp

theorem feedTexts_append_feed (value : Option α) (cs : List Char) :
    feedTexts (cs ++ feed value) =
      feedTexts cs ++ (value.map fun v => (ExactValue.exact v).fixed 1).toList := by
  cases value with
  | none => simp [feed]
  | some v => exact feedTexts_append_word cs (by decide) (Exact.solid_fixed 1 _)

theorem feedTexts_word_kind (k : MoveKind) : feedTexts k.word = [] := by
  cases k <;> decide

/-- A line has the feed of its move. -/
theorem feedTexts_lineChars {style : Style} {d : Move α} {line : List Char}
    (h : lineChars style d = .ok line) :
    feedTexts line = (d.feed.map fun v => (ExactValue.exact v).fixed 1).toList := by
  unfold lineChars at h
  obtain ⟨x, hx, h⟩ := exists_of_bind_eq_ok h
  obtain ⟨y, hy, h⟩ := exists_of_bind_eq_ok h
  obtain ⟨z, hz, h⟩ := exists_of_bind_eq_ok h
  obtain ⟨i, hi, h⟩ := exists_of_bind_eq_ok h
  obtain ⟨j, hj, h⟩ := exists_of_bind_eq_ok h
  cases h
  rw [feedTexts_append_feed, feedTexts_append_coordinate hj (by decide) (by decide),
    feedTexts_append_coordinate hi (by decide) (by decide),
    feedTexts_append_coordinate hz (by decide) (by decide),
    feedTexts_append_coordinate hy (by decide) (by decide),
    feedTexts_append_coordinate hx (by decide) (by decide), feedTexts_word_kind, List.nil_append]

/-- The number of a line is not a feed. -/
theorem feedTexts_numberedLine (number : UInt32) (body : List Char) :
    feedTexts (numberedLine number body) = feedTexts body := by
  have hnumber : ∀ c ∈ 'N' :: Digits.ofNat number.toNat, Text.isBlank c = false := by
    intro c hc
    rcases List.mem_cons.mp hc with rfl | hc
    · decide
    · have hdigit := Line.inNumeral_of_isDigit (Digits.isDigit_ofNat _ c hc)
      exact (Line.plain_of_inNumeral hdigit).2
  -- the number is a word of its own, with another letter
  have hsplit : numberedLine number body = ('N' :: Digits.ofNat number.toNat) ++ ' ' :: body := rfl
  rw [hsplit, feedTexts_append_cons (by decide), feedTexts_word hnumber,
    feedText?_of_ne (by decide)]
  simp

theorem feedTexts_mapIdx {f : ℕ → List Char → List Char}
    (h : ∀ index body, feedTexts (f index body) = feedTexts body) (bodies : List (List Char)) :
    (bodies.mapIdx f).flatMap feedTexts = bodies.flatMap feedTexts := by
  induction bodies generalizing f with
  | nil => rfl
  | cons body bodies ih =>
    rw [List.mapIdx_cons, List.flatMap_cons, List.flatMap_cons, h, ih fun index => h (index + 1)]

theorem feedTexts_mapM_lineChars {style : Style} {ds : List (Move α)} {bodies : List (List Char)}
    (h : ds.mapM (lineChars style) = .ok bodies) :
    bodies.flatMap feedTexts =
      (ds.filterMap (·.feed)).map fun v => (ExactValue.exact v).fixed 1 := by
  induction ds generalizing bodies with
  | nil =>
    cases h
    rfl
  | cons d ds ih =>
    rw [List.mapM_cons] at h
    obtain ⟨line, hline, h⟩ := exists_of_bind_eq_ok h
    obtain ⟨rest, hrest, h⟩ := exists_of_bind_eq_ok h
    cases h
    rw [List.flatMap_cons, feedTexts_lineChars hline, ih hrest]
    cases hfeed : d.feed <;> simp [hfeed]

theorem feedTexts_lines (ls : List (List Char)) :
    feedTexts (ls.flatMap (· ++ ['\n'])) = ls.flatMap feedTexts := by
  induction ls with
  | nil => rfl
  | cons l ls ih =>
    rw [List.flatMap_cons, List.flatMap_cons, List.append_assoc, List.singleton_append,
      feedTexts_append_cons (by decide), ih]

/-- **The feeds on a page are those of its moves**, with one decimal, whatever the style. -/
theorem feedTexts_page {style : Style} {ds : List (Move α)} {text : String}
    (h : page style ds = .ok text) :
    feedTexts text.toList =
      (ds.filterMap (·.feed)).map fun v => (ExactValue.exact v).fixed 1 := by
  unfold page linesChars at h
  cases hbodies : ds.mapM (lineChars style) with
  | error e =>
    rw [hbodies] at h
    cases h
  | ok bodies =>
    rw [hbodies] at h
    cases h
    rw [String.toList_ofList, feedTexts_lines, ← feedTexts_mapM_lineChars hbodies]
    -- with numbers and without
    split
    · exact feedTexts_mapIdx (fun _ _ => feedTexts_numberedLine _ _) bodies
    · rfl

end Gcode

/-! ## Feeds that are seen to be positive -/

/-- A numeral of a number above zero. -/
def Decimal.PositiveNumeral (cs : List Char) : Prop := ∃ w ∈ ofNumeral? cs, 0 < w.toRat

namespace Exact

/-- Seen to be positive with one decimal: a number, and more than half a unit of that decimal. -/
def Legible (e : Exact) : Prop := ∃ q ∈ e.value?, 1 / 20 < q

theorem positiveNumeral_iff_of_isFinite {e : Exact} (h : e.IsFinite) :
    Decimal.PositiveNumeral (e.fixed 1) ↔ e.Legible := by
  obtain ⟨q, hq, hrounds⟩ := roundsTo_rounded h 1
  have hread : Decimal.ofNumeral? (e.fixed 1) = some (e.rounded 1) := by
    rw [fixed_eq h]
    exact Decimal.ofNumeral?_numeral (by simp [exponent_rounded])
  have hhalf : 1 / 2 < q * 10 ^ 1 ↔ 1 / 20 < q := by
    constructor <;> intro h <;> linarith
  simp only [Decimal.PositiveNumeral, Legible, hread, hq, Option.mem_some_iff, exists_eq_left',
    hrounds.pos_iff, hhalf]

end Exact

namespace Binary64

theorem exact_cases (b : Binary64) :
    b.exact = .nan ∨ (∃ negative, b.exact = .infinite negative) ∨ b.exact.IsFinite := by
  cases b with
  | nan => exact Or.inl rfl
  | infinite negative => exact Or.inr (Or.inl ⟨negative, rfl⟩)
  | finite negative m e =>
    obtain ⟨n, d, hexact, hd, -⟩ := exact_finite negative m e
    rw [hexact]
    exact Or.inr (Or.inr hd)

theorem not_positiveNumeral_infiniteText (negative : Bool) :
    ¬Decimal.PositiveNumeral (Exact.infiniteText negative) := by
  have hnone : ∀ negative, Decimal.ofNumeral? (Exact.infiniteText negative) = none := by decide
  simp [Decimal.PositiveNumeral, hnone negative]

/-- **A float with one decimal is seen to be positive** if it is a number above a twentieth, and in
no other case. -/
theorem positiveNumeral_iff (v : Float) :
    Decimal.PositiveNumeral ((ExactValue.exact v).fixed 1) ↔ (ExactValue.exact v).Legible := by
  rcases exact_cases (ofFloat v) with h | ⟨negative, h⟩ | h
  · -- what is not finite is no numeral, and no number above a twentieth
    have hexact : ExactValue.exact v = .nan := h
    have hnone : Decimal.ofNumeral? Exact.nanText = none := by decide
    rw [hexact]
    simp [Decimal.PositiveNumeral, Exact.Legible, Exact.value?, Exact.fixed, hnone]
  · have hexact : ExactValue.exact v = .infinite negative := h
    rw [hexact]
    refine iff_of_false (not_positiveNumeral_infiniteText negative) ?_
    simp [Exact.Legible, Exact.value?]
  · exact Exact.positiveNumeral_iff_of_isFinite h

end Binary64

/-! ## Compiled pages -/

namespace Compilation

theorem valid_of_loadSettings {c : Compilation} {source : TextSource} {s : Settings Float}
    (h : c.loadSettings source = .ok s) : s.Valid := by
  unfold loadSettings at h
  split at h
  · cases h
    decide +kernel
  · split at h
    · rename_i hload
      cases h
      exact Settings.valid_of_load hload
    · cases h

/-- What is compiled has been loaded and run, and is the page of what the run has queued. -/
theorem of_compile {c : Compilation} {source : TextSource} {compiled : Compiled}
    (h : c.compile source = .ok compiled) :
    ∃ settings job, c.loadSettings source = .ok settings ∧ c.loadJob source = .ok job ∧
      Gcode.page c.style
        (job.run settings.tool settings.feeds c.stopOnError).machine.queue.toList =
          .ok compiled.page := by
  unfold compile at h
  obtain ⟨settings, hsettings, h⟩ := exists_of_bind_eq_ok h
  obtain ⟨job, hjob, h⟩ := exists_of_bind_eq_ok h
  refine ⟨settings, job, hsettings, hjob, ?_⟩
  unfold write at h
  split at h
  · rename_i hpage
    cases h
    exact hpage
  · cases h

/-- **The feeds of a compiled page.** They are those of the moves of the job, each with one decimal
and each either of the two speeds, which are in range. All of them are seen to be positive exactly
if every speed that a move is fed at is legible. -/
theorem feeds_positive_iff {c : Compilation} {source : TextSource} {compiled : Compiled}
    (h : c.compile source = .ok compiled) :
    ∃ settings job moves, c.loadSettings source = .ok settings ∧ settings.Valid ∧
      c.loadJob source = .ok job ∧
      (job.run settings.tool settings.feeds c.stopOnError).machine.queue.toList = moves ∧
      Gcode.feedTexts compiled.page.toList =
        (moves.filterMap settings.feeds.of).map (fun v => (ExactValue.exact v).fixed 1) ∧
      ((∀ text ∈ Gcode.feedTexts compiled.page.toList, Decimal.PositiveNumeral text) ↔
        ∀ d ∈ moves, ∀ v ∈ settings.feeds.of d, (ExactValue.exact v).Legible) := by
  obtain ⟨settings, job, hsettings, hjob, hpage⟩ := of_compile h
  let moves := (job.run settings.tool settings.feeds c.stopOnError).machine.queue.toList
  have hfed : moves.filterMap (·.feed) = moves.filterMap settings.feeds.of :=
    List.filterMap_congr (job.fedBy_run settings.tool settings.feeds c.stopOnError)
  have htexts : Gcode.feedTexts compiled.page.toList =
      (moves.filterMap settings.feeds.of).map fun v => (ExactValue.exact v).fixed 1 := by
    rw [Gcode.feedTexts_page hpage, hfed]
  refine ⟨settings, job, moves, hsettings, valid_of_loadSettings hsettings, hjob, rfl, htexts, ?_⟩
  rw [htexts]
  simp only [List.forall_mem_map, Binary64.positiveNumeral_iff, List.mem_filterMap]
  constructor
  · intro hall d hd v hv
    exact hall v ⟨d, hd, hv⟩
  · rintro hall v ⟨d, hd, hv⟩
    exact hall d hd v hv

/-! ### Half a circle at a crawl -/

/-- A job file and a file of settings. -/
def crawling : Compilation := ⟨"job.json", some "crawl.json", {}, false⟩

/-- Half a circle, and settings that cut it at three hundredths of a unit per minute. -/
def crawl : TextSource := fun path =>
  if path = "job.json" then .ok "[[\"CG\", 2, null, 1, 0]]"
  else .ok "\x7b\"feeds\": \x7b\"xy\": 0.0005\x7d\x7d"

/-- The speed is in its range, and the page says that the tool stands still. -/
theorem crawl_compile : ∃ compiled, crawling.compile crawl = .ok compiled ∧
    compiled.page = "G2 X2.0000 Y0.0000 I1.0000 J0.0000 F0.0\n" := by
  have hpage : ((crawling.compile crawl).map (·.page)).toOption =
      some "G2 X2.0000 Y0.0000 I1.0000 J0.0000 F0.0\n" := by decide +kernel
  cases hcompiled : crawling.compile crawl with
  | error e =>
    rw [hcompiled] at hpage
    cases hpage
  | ok compiled =>
    rw [hcompiled] at hpage
    exact ⟨compiled, rfl, Option.some.inj hpage⟩

theorem crawl_feeds_positive_iff : ∃ compiled, crawling.compile crawl = .ok compiled ∧
    ∃ settings job moves, crawling.loadSettings crawl = .ok settings ∧ settings.Valid ∧
      crawling.loadJob crawl = .ok job ∧
      (job.run settings.tool settings.feeds crawling.stopOnError).machine.queue.toList = moves ∧
      Gcode.feedTexts compiled.page.toList =
        (moves.filterMap settings.feeds.of).map (fun v => (ExactValue.exact v).fixed 1) ∧
      ((∀ text ∈ Gcode.feedTexts compiled.page.toList, Decimal.PositiveNumeral text) ↔
        ∀ d ∈ moves, ∀ v ∈ settings.feeds.of d, (ExactValue.exact v).Legible) := by
  obtain ⟨compiled, hcompiled, -⟩ := crawl_compile
  exact ⟨compiled, hcompiled, feeds_positive_iff hcompiled⟩

/-- Settings in range, and a page with a feed that is not positive. -/
theorem crawl_not_positive : ∃ settings compiled, crawling.loadSettings crawl = .ok settings ∧
    settings.Valid ∧ crawling.compile crawl = .ok compiled ∧
    ∃ text ∈ Gcode.feedTexts compiled.page.toList, ¬Decimal.PositiveNumeral text := by
  obtain ⟨compiled, hcompiled, hpage⟩ := crawl_compile
  obtain ⟨settings, job, hsettings, -⟩ := of_compile hcompiled
  refine ⟨settings, compiled, hsettings, valid_of_loadSettings hsettings, hcompiled,
    "0.0".toList, ?_, ?_⟩
  · rw [hpage]
    decide +kernel
  · rintro ⟨w, hw, hpos⟩
    obtain rfl : ⟨false, 0, -1⟩ = w := Option.some.inj hw
    exact absurd hpos (by decide +kernel)

end Compilation

end Toolpath
