import Toolpath.Proofs.Gcode.Line
import Toolpath.Proofs.Number.Nearest
import Mathlib.Data.List.Forall2

/-!
# Pages of G-code, there and back

A page without line numbers, taken apart at its line feeds and read line by line, gives the moves
that were printed, with their values rounded to what was printed.

* `Gcode.page_eq` — a page is the text of its rounded moves
* `Gcode.page_floats` — also if these are read as floats
* `Gcode.splitOn_pageText` — the line feeds of a page are where its lines end
* `Gcode.page_reads_back` — what is read, and that it is printed as it was read
-/

namespace Toolpath

variable {α : Type}

/-! ## A decimal as a number -/

/-- Decimals are compared by value. -/
instance : BEq Decimal := ⟨fun a b => decide (a.toRat = b.toRat)⟩

/-- A decimal that is read as it stands. -/
instance : OfDecimal Decimal := ⟨id⟩

theorem Line.kind?_decimal (k : MoveKind) :
    kind? (OfDecimal.ofDecimal ⟨false, k.code, 0⟩ : Decimal) = some k := by
  cases k <;> decide +kernel

theorem Line.kind?_float (k : MoveKind) :
    kind? (OfDecimal.ofDecimal ⟨false, k.code, 0⟩ : Float) = some k := by
  cases k <;> decide +kernel

theorem Move.map_id (d : Move α) : d.map id = d := by
  simp [map]

/-- The decimal that stands for a number in a text: it has so many places, and it is the number
rounded to them. -/
structure PrintedAs [ExactValue α] (places : ℕ) (v : α) (w : Decimal) : Prop where
  exponent_eq : w.exponent = -places
  rounds : ∃ q, (ExactValue.exact v).value? = some q ∧ RoundsTo places q w.toRat

/-- A move, and the move that is read where it was printed. -/
structure ReadsBack [ExactValue α] (places : ℕ) (d : Move α) (r : Move Decimal) : Prop where
  kind_eq : r.kind = d.kind
  x : Option.Rel (PrintedAs places) d.x r.x
  y : Option.Rel (PrintedAs places) d.y r.y
  z : Option.Rel (PrintedAs places) d.z r.z
  i : Option.Rel (PrintedAs places) d.i r.i
  j : Option.Rel (PrintedAs places) d.j r.j
  feed : Option.Rel (PrintedAs 1) d.feed r.feed
  /-- Only a feed can be a zero with a sign. -/
  unsigned : ∀ w ∈ r.words, w.letter ≠ 'F' → w.value.mantissa = 0 → w.value.negative = false

namespace Gcode

section

variable [ExactValue α]

theorem printedAs_rounded {v : α} (h : (ExactValue.exact v).IsFinite) (places : ℕ) :
    PrintedAs places v ((ExactValue.exact v).rounded places) :=
  ⟨Exact.exponent_rounded _ _, Exact.roundsTo_rounded h places⟩

theorem printedAs_unsignedZero {v : α} {w : Decimal} {places : ℕ} (h : PrintedAs places v w) :
    PrintedAs places v w.unsignedZero := by
  obtain ⟨q, hq, hrounds⟩ := h.rounds
  refine ⟨h.exponent_eq, q, hq, ?_⟩
  rwa [Decimal.toRat_unsignedZero]

omit [ExactValue α] in
theorem rel_map {r : α → Decimal → Prop} {f : α → Decimal} {value : Option α}
    (h : ∀ v ∈ value, r v (f v)) : Option.Rel r value (value.map f) := by
  cases value with
  | none => exact .none
  | some v => exact .some (h v rfl)

theorem readsBack_rounded {d : Move α} (h : IsFinite d) (places : ℕ) :
    ReadsBack places d (rounded places d) := by
  obtain ⟨hx, hy, hz, hi, hj, hf⟩ :=
    (Move.forall_words (p := fun v => (ExactValue.exact v).IsFinite)).mp h
  have hcoordinate : ∀ {value : Option α}, (∀ v ∈ value, (ExactValue.exact v).IsFinite) →
      Option.Rel (PrintedAs places) value
        (value.map fun v => ((ExactValue.exact v).rounded places).unsignedZero) :=
    fun hv => rel_map fun v hmem => printedAs_unsignedZero (printedAs_rounded (hv v hmem) places)
  refine ⟨rfl, hcoordinate hx, hcoordinate hy, hcoordinate hz, hcoordinate hi, hcoordinate hj,
    rel_map fun v hmem => printedAs_rounded (hf v hmem) 1, ?_⟩
  have hunsigned : ∀ w : Decimal,
      w.unsignedZero.mantissa = 0 → w.unsignedZero.negative = false := by
    intro w hzero
    have hmantissa : w.mantissa = 0 := hzero
    simp [Decimal.unsignedZero, hmantissa]
  intro w hw hletter hzero
  simp only [Move.words, List.mem_append, Word.mem_ofOption, rounded, Option.mem_map] at hw
  rcases hw with ((((⟨-, v, -, hv⟩ | ⟨-, v, -, hv⟩) | ⟨-, v, -, hv⟩) | ⟨-, v, -, hv⟩) |
    ⟨-, v, -, hv⟩) | ⟨hfeed, -⟩
  case inr => exact absurd hfeed hletter
  all_goals
    rw [← hv] at hzero ⊢
    exact hunsigned _ hzero

/-! ## Pages -/

/-- Moves as a page, in characters. -/
def pageText (rs : List (Move Decimal)) : List Char := rs.flatMap fun r => r.text ++ ['\n']

theorem mapM_lineChars {style : Style} (hdecimals : style.decimals ≤ maxDecimals)
    {ds : List (Move α)} (h : ∀ d ∈ ds, IsFinite d) :
    ds.mapM (lineChars style) = .ok (ds.map fun d => (rounded style.decimals d).text) := by
  induction ds with
  | nil => rfl
  | cons d ds ih =>
    obtain ⟨hd, hds⟩ := List.forall_mem_cons.mp h
    rw [List.mapM_cons, lineChars_eq hdecimals hd, ih hds]
    rfl

/-- A page is the text of its rounded moves. -/
theorem page_eq {style : Style} (hplain : style.numbered = false)
    (hdecimals : style.decimals ≤ maxDecimals) {ds : List (Move α)} (h : ∀ d ∈ ds, IsFinite d) :
    page style ds = .ok (String.ofList (pageText (ds.map (rounded style.decimals)))) := by
  unfold page linesChars
  rw [mapM_lineChars hdecimals h, hplain, pageText, List.flatMap_map]
  simp [Except.map, List.flatMap_map]

/-- What is rounded, and then read as floats, is rounded to the same again. -/
theorem rounded_map_toFloat {d : Move Float} (h : ∀ w ∈ d.words, w.value.isFinite = true)
    (places : ℕ) : IsFinite ((rounded places d).map Decimal.toFloat) ∧
      rounded places ((rounded places d).map Decimal.toFloat) = rounded places d := by
  have hcoordinate : ∀ v : Float, v.isFinite = true →
      let w := ((ExactValue.exact v).rounded places).unsignedZero
      (ExactValue.exact w.toFloat).IsFinite ∧
        ((ExactValue.exact w.toFloat).rounded places).unsignedZero = w := by
    intro v hv w
    obtain ⟨hfinite, hround⟩ :=
      Binary64.rounded_toFloat (w := w) hv rfl (Exact.exponent_rounded _ _)
    exact ⟨hfinite, by rw [hround, Decimal.unsignedZero_unsignedZero]⟩
  have hfeed : ∀ v : Float, v.isFinite = true →
      let w := (ExactValue.exact v).rounded 1
      (ExactValue.exact w.toFloat).IsFinite ∧ (ExactValue.exact w.toFloat).rounded 1 = w :=
    fun v hv => Binary64.rounded_toFloat hv rfl (Exact.exponent_rounded _ _)
  obtain ⟨hx, hy, hz, hi, hj, hf⟩ :=
    (Move.forall_words (p := fun v : Float => v.isFinite = true)).mp h
  constructor
  · refine (Move.forall_words (p := fun v => (ExactValue.exact v).IsFinite)).mpr ?_
    simp only [rounded, Move.map, Option.map_map, Option.mem_map, forall_exists_index, and_imp,
      forall_apply_eq_imp_iff₂]
    exact ⟨fun v hv => (hcoordinate v (hx v hv)).1, fun v hv => (hcoordinate v (hy v hv)).1,
      fun v hv => (hcoordinate v (hz v hv)).1, fun v hv => (hcoordinate v (hi v hv)).1,
      fun v hv => (hcoordinate v (hj v hv)).1, fun v hv => (hfeed v (hf v hv)).1⟩
  · simp only [rounded, Move.map, Option.map_map]
    congr 1
    · exact Option.map_congr fun v hv => (hcoordinate v (hx v hv)).2
    · exact Option.map_congr fun v hv => (hcoordinate v (hy v hv)).2
    · exact Option.map_congr fun v hv => (hcoordinate v (hz v hv)).2
    · exact Option.map_congr fun v hv => (hcoordinate v (hi v hv)).2
    · exact Option.map_congr fun v hv => (hcoordinate v (hj v hv)).2
    · exact Option.map_congr fun v hv => (hfeed v (hf v hv)).2

end

theorem intercalate_append_nil (ls : List (List Char)) (c : Char) :
    [c].intercalate (ls ++ [[]]) = ls.flatMap fun l => l ++ [c] := by
  induction ls with
  | nil => rfl
  | cons l ls ih =>
    rw [List.cons_append, List.intercalate_cons_of_ne_nil (by simp), ih, List.flatMap_cons]

/-- The line feeds of a page are where its lines end. -/
theorem splitOn_pageText (rs : List (Move Decimal)) :
    (pageText rs).splitOn '\n' = rs.map Move.text ++ [[]] := by
  have hjoin : pageText rs = ['\n'].intercalate (rs.map Move.text ++ [[]]) := by
    rw [intercalate_append_nil, pageText, List.flatMap_map]
  rw [hjoin]
  refine List.splitOn_intercalate '\n' ?_ (by simp)
  intro l hl hfeed
  rcases List.mem_append.mp hl with hline | hlast
  · obtain ⟨r, -, rfl⟩ := List.mem_map.mp hline
    exact (Line.plain_moveText r '\n' hfeed).2.2 rfl
  · obtain rfl := List.mem_singleton.mp hlast
    exact absurd hfeed List.not_mem_nil

/-- What is rounded is printed as it is. -/
theorem page_rounded [ExactValue α] {style : Style} (hplain : style.numbered = false)
    (hdecimals : style.decimals ≤ maxDecimals) (ds : List (Move α)) :
    page style (ds.map (rounded style.decimals)) =
      .ok (String.ofList (pageText (ds.map (rounded style.decimals)))) := by
  have hfinite : ∀ r ∈ ds.map (rounded style.decimals), IsFinite r := by
    intro r hr
    obtain ⟨d, -, rfl⟩ := List.mem_map.mp hr
    exact isFinite_rounded style.decimals d
  have hsame : (ds.map (rounded style.decimals)).map (rounded style.decimals) =
      ds.map (rounded style.decimals) := by
    simp only [List.map_map, Function.comp_def, rounded_rounded]
  rw [page_eq hplain hdecimals hfinite, hsame]

/-- The floats of what is rounded are printed in the same way. -/
theorem page_floats {style : Style} (hplain : style.numbered = false)
    (hdecimals : style.decimals ≤ maxDecimals) {ds : List (Move Float)}
    (hfinite : ∀ d ∈ ds, ∀ w ∈ d.words, w.value.isFinite = true) :
    page style ((ds.map (rounded style.decimals)).map (Move.map Decimal.toFloat)) =
      .ok (String.ofList (pageText (ds.map (rounded style.decimals)))) := by
  have hfloats : ∀ r ∈ (ds.map (rounded style.decimals)).map (Move.map Decimal.toFloat),
      IsFinite r := by
    intro r hr
    obtain ⟨r', hr', rfl⟩ := List.mem_map.mp hr
    obtain ⟨d, hd, rfl⟩ := List.mem_map.mp hr'
    exact (rounded_map_toFloat (hfinite d hd) style.decimals).1
  have hsame : ((ds.map (rounded style.decimals)).map (Move.map Decimal.toFloat)).map
      (rounded style.decimals) = ds.map (rounded style.decimals) := by
    simp only [List.map_map]
    exact List.map_congr_left fun d hd => (rounded_map_toFloat (hfinite d hd) style.decimals).2
  rw [page_eq hplain hdecimals hfloats, hsame]

/-- Line by line, a page is read as its moves. -/
theorem mapM_read [OfDecimal α] [BEq α]
    (hkind : ∀ k : MoveKind, Line.kind? (OfDecimal.ofDecimal ⟨false, k.code, 0⟩ : α) = some k)
    {rs : List (Move Decimal)} (hvalues : ∀ r ∈ rs, ∀ w ∈ r.words, w.value.exponent ≤ 0) :
    (rs.map Move.text).mapM (fun l => Line.read (α := α) (String.ofList l)) =
      .ok (rs.map (Move.map OfDecimal.ofDecimal)) := by
  induction rs with
  | nil => rfl
  | cons r rs ih =>
    obtain ⟨hr, hrs⟩ := List.forall_mem_cons.mp hvalues
    rw [List.map_cons, List.mapM_cons, Line.read_text hkind hr, ih hrs]
    rfl

/-- **A page reads back**: every line of it is read, as a move of the same kind with the same words,
rounded to the decimals that were printed, and what is read is printed as the same page. Read as
floats, it is the nearest floats to these decimals, and they too are printed as the same page. -/
theorem page_reads_back {style : Style} (hplain : style.numbered = false)
    (hdecimals : style.decimals ≤ maxDecimals) {ds : List (Move Float)}
    (hfinite : ∀ d ∈ ds, ∀ w ∈ d.words, w.value.isFinite = true) :
    ∃ (text : String) (lines : List (List Char)) (rs : List (Move Decimal)),
      page style ds = .ok text ∧ text.toList.splitOn '\n' = lines ++ [[]] ∧
      lines = rs.map Move.text ∧ List.Forall₂ (ReadsBack style.decimals) ds rs ∧
      lines.mapM (fun l => Line.read (String.ofList l)) = .ok rs ∧ page style rs = .ok text ∧
      lines.mapM (fun l => Line.read (String.ofList l)) = .ok (rs.map (Move.map Decimal.toFloat)) ∧
      page style (rs.map (Move.map Decimal.toFloat)) = .ok text := by
  have hds : ∀ d ∈ ds, IsFinite d :=
    fun d hd w hw => Binary64.isFinite_exact (hfinite d hd w hw)
  let rs := ds.map (rounded style.decimals)
  have hvalues : ∀ r ∈ rs, ∀ w ∈ r.words, w.value.exponent ≤ 0 := by
    intro r hr
    obtain ⟨d, -, rfl⟩ := List.mem_map.mp hr
    exact exponent_rounded_le
  have hread : (rs.map Move.text).mapM (fun l => Line.read (α := Decimal) (String.ofList l)) =
      .ok rs := by
    have hid : rs.map (Move.map id) = rs :=
      (List.map_congr_left fun r _ => Move.map_id r).trans (List.map_id rs)
    exact (mapM_read Line.kind?_decimal hvalues).trans (congrArg Except.ok hid)
  refine ⟨String.ofList (pageText rs), rs.map Move.text, rs, page_eq hplain hdecimals hds, ?_, rfl,
    ?_, hread, page_rounded hplain hdecimals ds, mapM_read Line.kind?_float hvalues,
    page_floats hplain hdecimals hfinite⟩
  · rw [String.toList_ofList]
    exact splitOn_pageText rs
  · refine List.forall₂_map_right_iff.mpr (List.forall₂_same.mpr fun d hd => ?_)
    exact readsBack_rounded (hds d hd) style.decimals

/-- Over the workpiece, just left of zero, and half a circle from there. -/
def leftOfZero : List (Move Float) :=
  [{ kind := .rapid, x := some (-0.00001), z := some 0.5 },
    { kind := .arcClockwise, x := some 2, y := some 0.12345, i := some 1, j := some (-0.0),
      feed := some 60 }]

theorem leftOfZero_reads_back :
    (∀ d ∈ leftOfZero, ∀ w ∈ d.words, w.value.isFinite = true) ∧
    ∃ (text : String) (lines : List (List Char)) (rs : List (Move Decimal)),
      page {} leftOfZero = .ok text ∧ text.toList.splitOn '\n' = lines ++ [[]] ∧
      lines = rs.map Move.text ∧ List.Forall₂ (ReadsBack 4) leftOfZero rs ∧
      lines.mapM (fun l => Line.read (String.ofList l)) = .ok rs ∧ page {} rs = .ok text ∧
      lines.mapM (fun l => Line.read (String.ofList l)) = .ok (rs.map (Move.map Decimal.toFloat)) ∧
      page {} (rs.map (Move.map Decimal.toFloat)) = .ok text := by
  have hfinite : ∀ d ∈ leftOfZero, ∀ w ∈ d.words, w.value.isFinite = true := by
    decide +kernel
  exact ⟨hfinite, page_reads_back rfl (by decide) hfinite⟩

end Gcode

end Toolpath
