import Toolpath.Proofs.Accepted
import Toolpath.Proofs.Arc.Passes
import Toolpath.Proofs.Number.Digits
import Mathlib.Data.List.Forall2

/-!
# Numbered lines

The lines of a numbered page begin with 10, 20, 30 and so on. The counter is 32 bits wide, so this
goes well for 429496729 lines, up to the number 4294967290; the next line is numbered 4. Nothing
keeps a job from having more moves than that: a circle can be cut as often as 32 bits can say, and
takes a move each time.

* `Gcode.linesChars_numbered` — the lines of a numbered page, however many
* `Gcode.exists_linesChars_iff` — when a page can be written at all
* `Gcode.numberedInTens_iff`, `Gcode.rises_iff` — the numbers that are right, and that go up
* `Gcode.numbered_in_tens_iff` — when there is a page that is numbered in tens
-/

namespace Toolpath

/-- The numbers of a move that are written with the decimals of a coordinate. -/
def Move.coordinates {α : Type} (d : Move α) : List α :=
  d.x.toList ++ d.y.toList ++ d.z.toList ++ d.i.toList ++ d.j.toList

/-- A run of computations succeeds if each of them does, and gives what they give. -/
theorem mapM_eq_ok_iff {ε β γ : Type} {f : β → Except ε γ} {bs : List β} {cs : List γ} :
    bs.mapM f = .ok cs ↔ List.Forall₂ (fun b c => f b = .ok c) bs cs := by
  induction bs generalizing cs with
  | nil =>
    rw [List.forall₂_nil_left_iff]
    exact ⟨fun h => (Except.ok.inj h).symm, fun h => congrArg Except.ok h.symm⟩
  | cons b bs ih =>
    rw [List.mapM_cons, List.forall₂_cons_left_iff]
    constructor
    · intro h
      obtain ⟨c, hc, h⟩ := exists_of_bind_eq_ok h
      obtain ⟨rest, hrest, h⟩ := exists_of_bind_eq_ok h
      exact ⟨c, rest, hc, ih.mp hrest, (Except.ok.inj h).symm⟩
    · rintro ⟨c, rest, hc, hrest, rfl⟩
      rw [hc, ih.mpr hrest]
      rfl

theorem exists_mapM_iff {ε β γ : Type} {f : β → Except ε γ} {bs : List β} :
    (∃ cs, bs.mapM f = .ok cs) ↔ ∀ b ∈ bs, ∃ c, f b = .ok c := by
  induction bs with
  | nil => exact iff_of_true ⟨[], rfl⟩ (by simp)
  | cons b bs ih =>
    rw [List.forall_mem_cons, ← ih]
    simp only [mapM_eq_ok_iff, List.forall₂_cons_left_iff]
    constructor
    · rintro ⟨_, c, rest, hc, hrest, rfl⟩
      exact ⟨⟨c, hc⟩, rest, hrest⟩
    · rintro ⟨⟨c, hc⟩, rest, hrest⟩
      exact ⟨_, c, rest, hc, hrest, rfl⟩

namespace Gcode

/-! ## Numbers -/

/-- The most lines that can be numbered in tens. -/
def maxNumbered : ℕ := 429496729

/-- The text of a line with a number in front. -/
def numberedText (number : ℕ) (body : List Char) : List Char :=
  'N' :: Digits.ofNat number ++ ' ' :: body

/-- The number that a line begins with. -/
def lineNumber? : List Char → Option ℕ
  | 'N' :: rest => some (Digits.value (Digits.span rest).1)
  | _ => none

/-- The numbers of lines go up all the way. -/
def Rises (ls : List (List Char)) : Prop :=
  ls.Pairwise fun l l' => ∃ n ∈ lineNumber? l, ∃ n' ∈ lineNumber? l', n < n'

theorem toNat_lineNumber (index : ℕ) :
    (lineNumber index).toNat = 10 * (index + 1) % 2 ^ 32 := by
  show ((10 : UInt32) + 10 * UInt32.ofNat index).toNat = _
  rw [UInt32.toNat_add, UInt32.toNat_mul, UInt32.toNat_ofNat']
  show (10 + 10 * (index % 2 ^ 32) % 2 ^ 32) % 2 ^ 32 = _
  omega

/-- The numbers that are not too many do not wrap around. -/
theorem mod_eq_of_lt_maxNumbered {k : ℕ} (hk : k < maxNumbered) :
    10 * (k + 1) % 2 ^ 32 = 10 * (k + 1) := by
  unfold maxNumbered at hk
  exact Nat.mod_eq_of_lt (by omega)

theorem lineNumber?_numberedText (number : ℕ) (body : List Char) :
    lineNumber? (numberedText number body) = some number := by
  have hspan : Digits.span (Digits.ofNat number ++ ' ' :: body) =
      (Digits.ofNat number, ' ' :: body) :=
    Digits.span_append_stop (Digits.isDigit_ofNat _) (by simp; decide)
  show some (Digits.value (Digits.span (Digits.ofNat number ++ ' ' :: body)).1) = _
  rw [hspan, Digits.value_ofNat]

variable {α : Type} [ExactValue α]

/-! ## Which lines can be written -/

theorem exists_coordinate_iff {style : Style} {letter : Char} {value : Option α} :
    (∃ text, coordinate style letter value = .ok text) ↔
      style.decimals ≤ maxDecimals ∨ value.toList = [] := by
  cases value with
  | none => simp [coordinate]
  | some v =>
    simp only [coordinate]
    split_ifs with h
    · simpa using h
    · simpa using Nat.le_of_not_lt h

/-- A line can be written if its coordinates can have as many decimals, or if it has none. -/
theorem exists_lineChars_iff {style : Style} {d : Move α} :
    (∃ line, lineChars style d = .ok line) ↔
      style.decimals ≤ maxDecimals ∨ d.coordinates = [] := by
  have hparts : (∃ line, lineChars style d = .ok line) ↔
      (∃ text, coordinate style 'X' d.x = .ok text) ∧
      (∃ text, coordinate style 'Y' d.y = .ok text) ∧
      (∃ text, coordinate style 'Z' d.z = .ok text) ∧
      (∃ text, coordinate style 'I' d.i = .ok text) ∧
      ∃ text, coordinate style 'J' d.j = .ok text := by
    unfold lineChars
    constructor
    · rintro ⟨line, h⟩
      obtain ⟨x, hx, h⟩ := exists_of_bind_eq_ok h
      obtain ⟨y, hy, h⟩ := exists_of_bind_eq_ok h
      obtain ⟨z, hz, h⟩ := exists_of_bind_eq_ok h
      obtain ⟨i, hi, h⟩ := exists_of_bind_eq_ok h
      obtain ⟨j, hj, h⟩ := exists_of_bind_eq_ok h
      exact ⟨⟨x, hx⟩, ⟨y, hy⟩, ⟨z, hz⟩, ⟨i, hi⟩, ⟨j, hj⟩⟩
    · rintro ⟨⟨x, hx⟩, ⟨y, hy⟩, ⟨z, hz⟩, ⟨i, hi⟩, ⟨j, hj⟩⟩
      rw [hx, hy, hz, hi, hj]
      exact ⟨_, rfl⟩
  rw [hparts]
  simp only [exists_coordinate_iff, ← or_and_left]
  simp [Move.coordinates]

/-! ## Numbered pages -/

variable {decimals : ℕ} {ds : List (Move α)} {ls : List (List Char)}

/-- The lines of a numbered page, in order. -/
theorem linesChars_numbered (decimals : ℕ) (ds : List (Move α)) :
    linesChars ⟨decimals, true⟩ ds = (ds.mapM (lineChars ⟨decimals, true⟩)).map
      fun bodies => bodies.mapIdx fun k body => numberedText (10 * (k + 1) % 2 ^ 32) body := by
  unfold linesChars
  simp only [if_true, numberedLine, toNat_lineNumber, numberedText]

theorem exists_linesChars_iff {style : Style} :
    (∃ ls, linesChars style ds = .ok ls) ↔
      style.decimals ≤ maxDecimals ∨ ∀ d ∈ ds, d.coordinates = [] := by
  have hmap : (∃ ls, linesChars style ds = .ok ls) ↔
      ∃ bodies, ds.mapM (lineChars style) = .ok bodies := by
    unfold linesChars
    cases ds.mapM (lineChars style) <;> simp [Except.map]
  rw [hmap, exists_mapM_iff]
  simp only [exists_lineChars_iff, forall_or_left]

theorem of_linesChars (h : linesChars ⟨decimals, true⟩ ds = .ok ls) :
    ls.length = ds.length ∧ ∀ (k : ℕ) (hk : k < ds.length),
      ∃ body, lineChars ⟨decimals, true⟩ ds[k] = .ok body ∧
        ls[k]? = some (numberedText (10 * (k + 1) % 2 ^ 32) body) := by
  rw [linesChars_numbered] at h
  cases hbodies : ds.mapM (lineChars ⟨decimals, true⟩) with
  | error e =>
    rw [hbodies] at h
    cases h
  | ok bodies =>
    rw [hbodies] at h
    obtain rfl := Except.ok.inj h
    obtain ⟨hlength, hget⟩ := List.forall₂_iff_get.mp (mapM_eq_ok_iff.mp hbodies)
    refine ⟨by rw [List.length_mapIdx, hlength], fun k hk => ?_⟩
    have hk' : k < bodies.length := hlength ▸ hk
    refine ⟨bodies[k], hget k hk hk', ?_⟩
    rw [List.getElem?_mapIdx, List.getElem?_eq_getElem hk']
    rfl

/-- Every move has its line, in order, behind ten times its place, counted from one. -/
structure NumberedInTens (style : Style) (ds : List (Move α)) (ls : List (List Char)) : Prop where
  length_eq : ls.length = ds.length
  line_eq : ∀ (k : ℕ) (hk : k < ds.length), ∃ body, lineChars style ds[k] = .ok body ∧
    ls[k]? = some (numberedText (10 * (k + 1)) body)

theorem lineNumber?_getElem (h : linesChars ⟨decimals, true⟩ ds = .ok ls) {k : ℕ}
    (hk : k < ls.length) : lineNumber? ls[k] = some (10 * (k + 1) % 2 ^ 32) := by
  obtain ⟨hlength, hlines⟩ := of_linesChars h
  obtain ⟨body, -, hline⟩ := hlines k (hlength ▸ hk)
  rw [List.getElem?_eq_getElem hk] at hline
  rw [Option.some.inj hline, lineNumber?_numberedText]

/-- A page that can be written is numbered in tens unless it has too many lines. -/
theorem numberedInTens_iff (h : linesChars ⟨decimals, true⟩ ds = .ok ls) :
    NumberedInTens ⟨decimals, true⟩ ds ls ↔ ds.length ≤ maxNumbered := by
  obtain ⟨hlength, hlines⟩ := of_linesChars h
  constructor
  · intro htens
    by_contra hmany
    -- the first line too many has another number
    have hlast : maxNumbered < ds.length := not_le.mp hmany
    obtain ⟨body, -, hline⟩ := htens.line_eq maxNumbered hlast
    obtain ⟨body', -, hline'⟩ := hlines maxNumbered hlast
    have hsame := congrArg lineNumber? (Option.some.inj (hline.symm.trans hline'))
    rw [lineNumber?_numberedText, lineNumber?_numberedText] at hsame
    exact absurd hsame (by decide)
  · intro hfew
    refine ⟨hlength, fun k hk => ?_⟩
    obtain ⟨body, hbody, hline⟩ := hlines k hk
    rw [mod_eq_of_lt_maxNumbered (hk.trans_le hfew)] at hline
    exact ⟨body, hbody, hline⟩

/-- The numbers go up unless there are too many of them. -/
theorem rises_iff (h : linesChars ⟨decimals, true⟩ ds = .ok ls) :
    Rises ls ↔ ds.length ≤ maxNumbered := by
  have hlength := (of_linesChars h).1
  unfold Rises
  rw [List.pairwise_iff_getElem, ← hlength]
  constructor
  · intro hrises
    by_contra hmany
    -- the first line too many, and the one before it
    have hlast : maxNumbered < ls.length := not_le.mp hmany
    have hbefore : maxNumbered - 1 < ls.length := by omega
    obtain ⟨n, hn, n', hn', hlt⟩ := hrises (maxNumbered - 1) maxNumbered hbefore hlast (by decide)
    rw [lineNumber?_getElem h] at hn hn'
    obtain rfl := Option.some.inj hn
    obtain rfl := Option.some.inj hn'
    exact absurd hlt (by decide)
  · intro hfew i j hi hj hij
    refine ⟨_, lineNumber?_getElem h hi, _, lineNumber?_getElem h hj, ?_⟩
    rw [mod_eq_of_lt_maxNumbered (hi.trans_le hfew), mod_eq_of_lt_maxNumbered (hj.trans_le hfew)]
    omega

theorem lines_eq_ok_iff {style : Style} :
    lines style ds = .ok (ls.map String.ofList) ↔ linesChars style ds = .ok ls := by
  have hinjective : Function.Injective String.ofList := fun _ _ => String.ofList_inj.mp
  unfold lines
  cases linesChars style ds with
  | error e => simp [Except.map]
  | ok ls' => simp [Except.map, hinjective.list_map.eq_iff]

/-- **When a page is numbered in tens.** The counter of the lines is 32 bits wide, and a coordinate
has at most 65535 decimals. So every line is what its move is written as, behind ten times its place
modulo 2 ^ 32; and there is a line for each move, numbered in tens and upwards, if and only if these
two limits are kept. -/
theorem numbered_in_tens_iff (decimals : ℕ) (ds : List (Move α)) :
    linesChars ⟨decimals, true⟩ ds = (ds.mapM (lineChars ⟨decimals, true⟩)).map
      (fun bodies => bodies.mapIdx fun k body => numberedText (10 * (k + 1) % 2 ^ 32) body) ∧
    ((∃ ls, lines ⟨decimals, true⟩ ds = .ok (ls.map String.ofList) ∧
        NumberedInTens ⟨decimals, true⟩ ds ls ∧ Rises ls) ↔
      ds.length ≤ maxNumbered ∧ (decimals ≤ maxDecimals ∨ ∀ d ∈ ds, d.coordinates = [])) := by
  refine ⟨linesChars_numbered decimals ds, ?_⟩
  have hwritable : (∃ ls, linesChars ⟨decimals, true⟩ ds = .ok ls) ↔
      decimals ≤ maxDecimals ∨ ∀ d ∈ ds, d.coordinates = [] := exists_linesChars_iff
  rw [← hwritable]
  constructor
  · rintro ⟨ls, hlines, htens, -⟩
    have hls := lines_eq_ok_iff.mp hlines
    exact ⟨(numberedInTens_iff hls).mp htens, ls, hls⟩
  · rintro ⟨hfew, ls, hls⟩
    exact ⟨ls, lines_eq_ok_iff.mpr hls, (numberedInTens_iff hls).mpr hfew, (rises_iff hls).mpr hfew⟩

end Gcode

/-! ## More moves than numbers -/

/-- An accepted order makes a move for every repetition, unless it is cut as segments. -/
theorem ArcOrder.size_execute {α : Type} [Scalar α] {o : ArcOrder α} {tool : Tool α}
    {m : Machine α} (h : o.check tool = .ok ())
    (hwhole : (ArcPlan.ofOrder o tool m).segmented = false) (command : CommandKind) :
    o.passes.repetitions.toNat ≤ (o.execute command tool m).machine.queue.size := by
  rw [execute_of_check h]
  exact (Nat.le_add_left _ _).trans (ArcPlan.size_carryOut hwhole m)

namespace Compilation

/-- A circle, as often as there are numbers for lines and once more. -/
def overAndOver : TextSource := fun _ =>
  .ok "[[\"CG\", 0, 0, 1, 0, \"cw\", 0, 429496730]]"

/-- The circle of the file. -/
def circleOver : RelativeArc Float :=
  ⟨some 0, some 0, some 1, some 0, .clockwise, ⟨0, 429496730, false, false⟩, ⟨1, 1⟩, .profile⟩

/-- The order that the circle comes down to. -/
def circleOverOrder : ArcOrder Float :=
  ⟨⟨0, 0⟩, ⟨1, 0⟩, .clockwise, circleOver.passes, circleOver.scale, .profile⟩

/-- The job of the file. -/
def overAndOverJob : Job Float := ⟨Job.origin, .none, [.arc circleOver]⟩

theorem overAndOver_load : numbered.loadJob overAndOver = .ok overAndOverJob :=
  eq_ok_of_toOption (by decide +kernel)

/-- The run of the job has more moves than can be numbered in tens. -/
theorem overAndOver_length (stopOnError : Bool) : Gcode.maxNumbered <
    (overAndOverJob.run (Settings.standard : Settings Float).tool
      (Settings.standard : Settings Float).feeds stopOnError).machine.queue.toList.length := by
  let m : Machine Float := .atRest Job.origin .standard .none
  have hcheck : circleOverOrder.check .standard = .ok () := eq_ok_of_toOption (by decide +kernel)
  have hwhole : (ArcPlan.ofOrder circleOverOrder .standard m).segmented = false := by decide +kernel
  have hexecute : (Command.arc circleOver).execute .standard m =
      circleOverOrder.execute .arc .standard m := rfl
  have haccepted : ((Command.arc circleOver).execute .standard m).rejection = none := by
    rw [hexecute, ArcOrder.execute_of_check hcheck]
  have hrun : (overAndOverJob.run (Settings.standard : Settings Float).tool
      (Settings.standard : Settings Float).feeds stopOnError).machine =
        (circleOverOrder.execute .arc .standard m).machine := by
    show (Run.commands .standard stopOnError ⟨m, .empty⟩ 0 [.arc circleOver]).machine = _
    rw [Run.commands_of_accepted haccepted, hexecute]
    rfl
  have hmany : Gcode.maxNumbered < circleOverOrder.passes.repetitions.toNat := by decide
  rw [Array.length_toList, hrun]
  exact hmany.trans_le (ArcOrder.size_execute hcheck hwhole .arc)

/-- The page of the job has a line that is numbered 4 after one that is numbered 4294967290. With
one decimal too many there is no page even of a single move. -/
theorem overAndOver_not_numbered :
    numbered.loadSettings overAndOver = .ok .standard ∧
      numbered.loadJob overAndOver = .ok overAndOverJob ∧
      (∃ moves ls, (overAndOverJob.run (Settings.standard : Settings Float).tool
          (Settings.standard : Settings Float).feeds numbered.stopOnError).machine.queue.toList =
            moves ∧
        Gcode.lines numbered.style moves = .ok (ls.map String.ofList) ∧
        (ls[Gcode.maxNumbered - 1]?).bind Gcode.lineNumber? = some 4294967290 ∧
        (ls[Gcode.maxNumbered]?).bind Gcode.lineNumber? = some 4 ∧
        ¬Gcode.NumberedInTens numbered.style moves ls ∧ ¬Gcode.Rises ls) ∧
      Gcode.lines ⟨65536, true⟩ [Move.rapidXY (⟨1, 0⟩ : Point Float)] = .error ⟨65536⟩ := by
  refine ⟨rfl, overAndOver_load, ?_, rfl⟩
  generalize hmoves : (overAndOverJob.run (Settings.standard : Settings Float).tool
    (Settings.standard : Settings Float).feeds numbered.stopOnError).machine.queue.toList = moves
  have hmany : Gcode.maxNumbered < moves.length := by
    rw [← hmoves]
    exact overAndOver_length numbered.stopOnError
  obtain ⟨ls, hls⟩ : ∃ ls, Gcode.linesChars numbered.style moves = .ok ls :=
    Gcode.exists_linesChars_iff.mpr (Or.inl (by decide))
  have hnumber (k : ℕ) (hk : k < moves.length) :
      (ls[k]?).bind Gcode.lineNumber? = some (10 * (k + 1) % 2 ^ 32) := by
    obtain ⟨body, -, hline⟩ := (Gcode.of_linesChars hls).2 k hk
    rw [hline]
    exact Gcode.lineNumber?_numberedText _ body
  refine ⟨moves, ls, rfl, Gcode.lines_eq_ok_iff.mpr hls, ?_, hnumber _ hmany, ?_, ?_⟩
  · exact hnumber _ ((Nat.sub_le _ _).trans_lt hmany)
  · exact (Gcode.numberedInTens_iff hls).not.mpr (not_le.mpr hmany)
  · exact (Gcode.rises_iff hls).not.mpr (not_le.mpr hmany)

end Compilation

end Toolpath
