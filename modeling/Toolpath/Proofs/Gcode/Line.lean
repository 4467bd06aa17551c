import Toolpath.Gcode
import Toolpath.Move.Line
import Toolpath.Proofs.Number.Fixed
import Mathlib.Data.List.TakeWhile

/-!
# Lines of G-code, there and back

A move is printed as a line, and the line is read as the move with its values rounded to what was
printed. The way there and back goes over words: a letter with a decimal.

* `Gcode.lineChars_eq` — the line of a move is the text of its rounded words
* `Line.words_text` — a text of words is read as these words
* `Line.read_text` — and the words make up the move
-/

namespace Toolpath

variable {α β : Type}

/-! ## A move as its words -/

/-- A move with other numbers in it. -/
def Move.map (f : α → β) (d : Move α) : Move β :=
  ⟨d.kind, d.x.map f, d.y.map f, d.z.map f, d.i.map f, d.j.map f, d.feed.map f⟩

/-- A word with another number in it. -/
def Word.map (f : α → β) (w : Word α) : Word β := ⟨w.letter, f w.value⟩

def Word.ofOption (letter : Char) (value : Option α) : List (Word α) :=
  value.toList.map (Word.mk letter)

/-- The words behind the kind of a move, as they are printed. -/
def Move.words (d : Move α) : List (Word α) :=
  Word.ofOption 'X' d.x ++ Word.ofOption 'Y' d.y ++ Word.ofOption 'Z' d.z ++
    Word.ofOption 'I' d.i ++ Word.ofOption 'J' d.j ++ Word.ofOption 'F' d.feed

theorem Word.ofOption_map (f : α → β) (letter : Char) (value : Option α) :
    ofOption letter (value.map f) = (ofOption letter value).map (map f) := by
  cases value <;> rfl

theorem Move.words_map (f : α → β) (d : Move α) : (d.map f).words = d.words.map (Word.map f) := by
  simp only [words, map, Word.ofOption_map, List.map_append]

theorem Word.mem_ofOption {letter : Char} {value : Option α} {w : Word α} :
    w ∈ ofOption letter value ↔ w.letter = letter ∧ w.value ∈ value := by
  rcases w with ⟨letter', v⟩
  simp [ofOption, and_comm, eq_comm]

theorem Move.forall_words {p : α → Prop} {d : Move α} :
    (∀ w ∈ d.words, p w.value) ↔ (∀ v ∈ d.x, p v) ∧ (∀ v ∈ d.y, p v) ∧ (∀ v ∈ d.z, p v) ∧
      (∀ v ∈ d.i, p v) ∧ (∀ v ∈ d.j, p v) ∧ ∀ v ∈ d.feed, p v := by
  have hword : ∀ (letter : Char) (value : Option α),
      (∀ w ∈ Word.ofOption letter value, p w.value) ↔ ∀ v ∈ value, p v := by
    intro letter value
    cases value <;> simp [Word.ofOption]
  simp only [words, List.forall_mem_append, hword, and_assoc]

/-- The letters that can stand in a line. -/
def Gcode.letters : List Char := ['G', 'X', 'Y', 'Z', 'I', 'J', 'F']

theorem Move.letter_mem {d : Move α} {w : Word α} (h : w ∈ d.words) : w.letter ∈ Gcode.letters := by
  simp only [words, List.mem_append, Word.mem_ofOption] at h
  rcases h with ((((⟨hl, -⟩ | ⟨hl, -⟩) | ⟨hl, -⟩) | ⟨hl, -⟩) | ⟨hl, -⟩) | ⟨hl, -⟩ <;>
    simp [hl, Gcode.letters]

/-! ## The text of a line -/

/-- A word, in characters. -/
def Word.text (w : Word Decimal) : List Char := w.letter :: w.value.numeral

/-- The word that selects a kind. -/
def MoveKind.asWord (k : MoveKind) : Word Decimal := ⟨'G', ⟨false, k.code, 0⟩⟩

/-- A move, in characters: its words with a blank between them. -/
def Move.text (d : Move Decimal) : List Char :=
  d.kind.asWord.text ++ d.words.flatMap fun w => ' ' :: w.text

theorem MoveKind.text_asWord (k : MoveKind) : k.asWord.text = k.word := by
  have hcode : k.code < 10 := by
    cases k <;> decide
  show 'G' :: ([] ++ (Digits.ofNat (k.code / 1) ++ [])) = ['G', Digits.char k.code]
  rw [Nat.div_one, List.append_nil, List.nil_append, Digits.ofNat, Digits.prepend, if_pos hcode]

namespace Gcode

variable [ExactValue α]

/-- A move with its values rounded to what is printed for them. -/
def rounded (places : ℕ) (d : Move α) : Move Decimal where
  kind := d.kind
  x := d.x.map fun v => ((ExactValue.exact v).rounded places).unsignedZero
  y := d.y.map fun v => ((ExactValue.exact v).rounded places).unsignedZero
  z := d.z.map fun v => ((ExactValue.exact v).rounded places).unsignedZero
  i := d.i.map fun v => ((ExactValue.exact v).rounded places).unsignedZero
  j := d.j.map fun v => ((ExactValue.exact v).rounded places).unsignedZero
  feed := d.feed.map fun v => (ExactValue.exact v).rounded 1

/-- All numbers in a move are finite. -/
def IsFinite (d : Move α) : Prop := ∀ w ∈ d.words, (ExactValue.exact w.value).IsFinite

theorem coordinate_eq {style : Style} (hdecimals : style.decimals ≤ maxDecimals) {letter : Char}
    {value : Option α} (h : ∀ v ∈ value, (ExactValue.exact v).IsFinite) :
    coordinate style letter value = .ok ((Word.ofOption letter
      (value.map fun v => ((ExactValue.exact v).rounded style.decimals).unsignedZero)).flatMap
        fun w => ' ' :: w.text) := by
  cases value with
  | none => rfl
  | some v =>
    simp only [coordinate]
    rw [if_neg (Nat.not_lt.mpr hdecimals), Exact.fixedUnsignedZero_eq (h v rfl)]
    simp [Word.ofOption, Word.text]

theorem feed_eq {value : Option α} (h : ∀ v ∈ value, (ExactValue.exact v).IsFinite) :
    feed value = (Word.ofOption 'F' (value.map fun v =>
      (ExactValue.exact v).rounded 1)).flatMap fun w => ' ' :: w.text := by
  cases value with
  | none => rfl
  | some v =>
    simp only [feed]
    rw [Exact.fixed_eq (h v rfl)]
    simp [Word.ofOption, Word.text]

/-- **The line of a move** is the text of its rounded words. -/
theorem lineChars_eq {style : Style} (hdecimals : style.decimals ≤ maxDecimals) {d : Move α}
    (h : IsFinite d) : lineChars style d = .ok (rounded style.decimals d).text := by
  obtain ⟨hx, hy, hz, hi, hj, hf⟩ :=
    (Move.forall_words (p := fun v => (ExactValue.exact v).IsFinite)).mp h
  unfold lineChars
  rw [coordinate_eq hdecimals hx, coordinate_eq hdecimals hy, coordinate_eq hdecimals hz,
    coordinate_eq hdecimals hi, coordinate_eq hdecimals hj, feed_eq hf]
  simp only [Move.text, Move.words, MoveKind.text_asWord, List.flatMap_append, List.append_assoc]
  rfl

/-- What is rounded stays as it is when it is rounded again. -/
theorem rounded_rounded (places : ℕ) (d : Move α) :
    rounded places (rounded places d) = rounded places d := by
  have hcoordinate : ∀ e : Exact, ((ExactValue.exact (e.rounded places).unsignedZero).rounded
      places).unsignedZero = (e.rounded places).unsignedZero := by
    intro e
    have hexponent : (e.rounded places).unsignedZero.exponent = -places := e.exponent_rounded places
    rw [Decimal.rounded_exact hexponent, Decimal.unsignedZero_unsignedZero]
  have hfeed : ∀ e : Exact, (ExactValue.exact (e.rounded 1)).rounded 1 = e.rounded 1 :=
    fun e => Decimal.rounded_exact (e.exponent_rounded 1)
  simp only [rounded, Option.map_map, Function.comp_def, hcoordinate, hfeed]

theorem exponent_rounded_le {places : ℕ} {d : Move α} :
    ∀ w ∈ (rounded places d).words, w.value.exponent ≤ 0 := by
  refine (Move.forall_words (p := fun v : Decimal => v.exponent ≤ 0)).mpr ?_
  have hexponent : ∀ (n : ℕ) (e : Exact), (e.rounded n).exponent ≤ 0 := by
    intro n e
    rw [Exact.exponent_rounded]
    omega
  simp only [rounded, Option.mem_map, forall_exists_index, and_imp, forall_apply_eq_imp_iff₂]
  refine ⟨?_, ?_, ?_, ?_, ?_, ?_⟩ <;> exact fun v _ => hexponent _ _

theorem isFinite_rounded (places : ℕ) (d : Move α) : IsFinite (rounded places d) :=
  fun w _ => Decimal.isFinite_exact w.value

end Gcode

/-! ## Reading words -/

theorem Text.trim_eq_self {cs : List Char} (hhead : ∀ c ∈ cs.head?, isBlank c = false)
    (hlast : ∀ c ∈ cs.getLast?, isBlank c = false) : trim cs = cs := by
  have hfront : cs.dropWhile isBlank = cs :=
    (Digits.takeWhile_append_stop (l := []) (by simp) hhead).2
  have hlast' : ∀ c ∈ cs.reverse.head?, isBlank c = false := by
    rwa [List.head?_reverse]
  have hback : cs.reverse.dropWhile isBlank = cs.reverse :=
    (Digits.takeWhile_append_stop (l := []) (by simp) hlast').2
  rw [trim, hfront, hback, List.reverse_reverse]

namespace Line

/-- A character that is read as it stands, and does not end a line. -/
def Plain (c : Char) : Prop := startsComment c = false ∧ c.toUpper = c ∧ c ≠ '\n'

theorem plain_of_inNumeral {c : Char} (h : inNumeral c = true) :
    Plain c ∧ Text.isBlank c = false := by
  have hrange : 43 ≤ c.toNat ∧ c.toNat < 58 := by
    simp only [inNumeral, Digits.isDigit, Bool.or_eq_true, Bool.and_eq_true, decide_eq_true_eq,
      beq_iff_eq] at h
    rcases h with ((h | rfl) | rfl) | rfl
    · omega
    · decide
    · decide
    · decide
  have hall : ∀ n ∈ List.range 58, 43 ≤ n →
      (startsComment (Char.ofNat n) = false ∧ (Char.ofNat n).toUpper = Char.ofNat n ∧
        Char.ofNat n ≠ '\n') ∧ Text.isBlank (Char.ofNat n) = false := by decide +kernel
  have hc := hall c.toNat (List.mem_range.mpr hrange.2) hrange.1
  rwa [Char.ofNat_toNat] at hc

theorem plain_of_letter {c : Char} (h : c ∈ Gcode.letters) :
    Plain c ∧ Text.isBlank c = false ∧ c.isAlpha = true := by
  simp only [Gcode.letters, List.mem_cons, List.not_mem_nil, or_false] at h
  rcases h with rfl | rfl | rfl | rfl | rfl | rfl | rfl <;>
    exact ⟨⟨by decide, by decide, by decide⟩, by decide, by decide⟩

theorem inNumeral_of_isDigit {c : Char} (h : Digits.isDigit c = true) : inNumeral c = true := by
  simp [inNumeral, h]

theorem inNumeral_numeral (w : Decimal) : ∀ c ∈ w.numeral, inNumeral c = true := by
  intro c hc
  rw [Decimal.numeral, Decimal.decimalText_eq] at hc
  rcases List.mem_append.mp hc with hsign | htext
  · cases hn : w.negative with
    | false => simp [Exact.sign, hn] at hsign
    | true =>
      obtain rfl : c = '-' := by simpa [Exact.sign, hn] using hsign
      decide
  rcases List.mem_append.mp htext with hwhole | hrest
  · exact inNumeral_of_isDigit (Digits.isDigit_ofNat _ c hwhole)
  · split at hrest
    · exact absurd hrest List.not_mem_nil
    · rcases List.mem_cons.mp hrest with rfl | hfraction
      · decide
      · exact inNumeral_of_isDigit (Decimal.isDigit_fractionDigits _ _ c hfraction)

section

variable [OfDecimal α]

theorem words_blank (cs : List Char) : words (α := α) (' ' :: cs) = words cs := by
  rw [words, if_pos (by decide)]

theorem words_text_append {w : Word Decimal} (hletter : w.letter ∈ Gcode.letters)
    (hvalue : w.value.exponent ≤ 0) {rest : List Char}
    (hrest : ∀ c ∈ rest.head?, inNumeral c = false) :
    words (w.text ++ rest) =
      (words rest).map fun ws => w.map (OfDecimal.ofDecimal (α := α)) :: ws := by
  -- what follows cannot be taken for a part of the numeral
  obtain ⟨-, hblank, halpha⟩ := plain_of_letter hletter
  obtain ⟨htake, hdrop⟩ := Digits.takeWhile_append_stop (inNumeral_numeral w.value) hrest
  show words (w.letter :: (w.value.numeral ++ rest)) = _
  rw [words, hblank, halpha, htake, hdrop, Decimal.ofNumeral?_numeral hvalue]
  rfl

/-- A text of words is read as these words. -/
theorem words_text {w : Word Decimal} {ws : List (Word Decimal)}
    (hletters : ∀ v ∈ w :: ws, v.letter ∈ Gcode.letters)
    (hvalues : ∀ v ∈ w :: ws, v.value.exponent ≤ 0) :
    words (w.text ++ ws.flatMap fun w => ' ' :: w.text) =
      .ok ((w :: ws).map (Word.map (OfDecimal.ofDecimal (α := α)))) := by
  induction ws generalizing w with
  | nil =>
    rw [List.flatMap_nil, words_text_append (hletters w List.mem_cons_self)
      (hvalues w List.mem_cons_self) (by simp), words]
    rfl
  | cons v ws ih =>
    have hrest := ih (fun u hu => hletters u (List.mem_cons_of_mem w hu))
      fun u hu => hvalues u (List.mem_cons_of_mem w hu)
    rw [List.flatMap_cons, List.cons_append, words_text_append (hletters w List.mem_cons_self)
      (hvalues w List.mem_cons_self) (by simp; decide), words_blank, hrest]
    rfl

end

/-! ## From words to the move -/

/-- The words of a move, in their order, make up the move. -/
theorem foldlM_words (d : Move α) :
    d.words.foldlM setWord ({ kind := d.kind } : Move α) = .ok d := by
  obtain ⟨kind, x, y, z, i, j, feed⟩ := d
  simp only [Move.words, List.foldlM_append]
  -- each of the words is there or not
  cases x <;> cases y <;> cases z <;> cases i <;> cases j <;> cases feed <;> rfl

/-! ## Lines -/

theorem plain_text {w : Word Decimal} (hletter : w.letter ∈ Gcode.letters) :
    ∀ c ∈ w.text, Plain c ∧ Text.isBlank c = false := by
  intro c hc
  rcases List.mem_cons.mp hc with rfl | hnumeral
  · exact ⟨(plain_of_letter hletter).1, (plain_of_letter hletter).2.1⟩
  · exact plain_of_inNumeral (inNumeral_numeral w.value c hnumeral)

/-- Every word in the text of a move has a letter that can stand there. -/
theorem letter_mem_all (d : Move Decimal) :
    ∀ w ∈ d.kind.asWord :: d.words, w.letter ∈ Gcode.letters := by
  intro w hw
  rcases List.mem_cons.mp hw with rfl | hw
  · exact List.mem_cons_self
  · exact Move.letter_mem hw

theorem plain_moveText (d : Move Decimal) : ∀ c ∈ d.text, Plain c := by
  intro c hc
  rcases List.mem_append.mp hc with hkind | hwords
  · exact (plain_text (letter_mem_all d _ List.mem_cons_self) c hkind).1
  · obtain ⟨w, hw, hcw⟩ := List.mem_flatMap.mp hwords
    rcases List.mem_cons.mp hcw with rfl | htext
    · exact ⟨by decide, by decide, by decide⟩
    · exact (plain_text (Move.letter_mem hw) c htext).1

/-- The last character of a text of words belongs to one of the words. -/
theorem mem_text_of_getLast? {w : Word Decimal} {ws : List (Word Decimal)} {c : Char}
    (h : c ∈ (w.text ++ ws.flatMap fun w => ' ' :: w.text).getLast?) :
    ∃ v ∈ w :: ws, c ∈ v.text := by
  induction ws generalizing w with
  | nil =>
    rw [List.flatMap_nil, List.append_nil] at h
    exact ⟨w, List.mem_cons_self, List.mem_of_getLast? h⟩
  | cons v ws ih =>
    -- a word has a letter at least, so the last character is not among the blanks
    have hne : v.text ++ (ws.flatMap fun w => ' ' :: w.text) ≠ [] := by simp [Word.text]
    rw [List.flatMap_cons, List.cons_append, List.getLast?_append, List.getLast?_cons_of_ne_nil hne,
      List.getLast?_eq_some_getLast hne, Option.some_or, ← List.getLast?_eq_some_getLast hne] at h
    obtain ⟨u, hu, hcu⟩ := ih h
    exact ⟨u, List.mem_cons_of_mem w hu, hcu⟩

theorem code_text (d : Move Decimal) : code d.text = d.text := by
  have hplain := plain_moveText d
  have htake : (d.text.takeWhile fun c => !startsComment c) = d.text := by
    refine List.takeWhile_eq_self_iff.mpr fun c hc => ?_
    rw [(hplain c hc).1]
    exact Bool.not_false
  have htrim : Text.trim d.text = d.text := by
    refine Text.trim_eq_self ?_ ?_
    · intro c hc
      obtain rfl : 'G' = c := Option.some.inj hc
      decide
    · intro c hc
      obtain ⟨w, hw, hcw⟩ := mem_text_of_getLast? hc
      exact (plain_text (letter_mem_all d w hw) c hcw).2
  have hupper : d.text.map Char.toUpper = d.text.map id :=
    List.map_congr_left fun c hc => (hplain c hc).2.1
  rw [code, htake, htrim, hupper, List.map_id]

/-- **The text of a move is read as the move**, with its decimals as the numbers they become. -/
theorem read_text [OfDecimal α] [BEq α]
    (hkind : ∀ k : MoveKind, kind? (OfDecimal.ofDecimal ⟨false, k.code, 0⟩ : α) = some k)
    {d : Move Decimal} (hvalues : ∀ w ∈ d.words, w.value.exponent ≤ 0) :
    read (α := α) (String.ofList d.text) = .ok (d.map OfDecimal.ofDecimal) := by
  have hall : ∀ w ∈ d.kind.asWord :: d.words, w.value.exponent ≤ 0 := by
    intro w hw
    rcases List.mem_cons.mp hw with rfl | hw
    · exact le_refl 0
    · exact hvalues w hw
  have hwords : words (α := α) d.text =
      .ok (d.kind.asWord.map OfDecimal.ofDecimal :: (d.map OfDecimal.ofDecimal).words) := by
    rw [Move.words_map]
    exact words_text (letter_mem_all d) hall
  have hselects : selects? (d.kind.asWord.map (OfDecimal.ofDecimal (α := α))) = some d.kind :=
    hkind d.kind
  rw [read, String.toList_ofList, code_text, if_neg (by simp [Move.text, Word.text]), hwords]
  show move (d.kind.asWord.map (OfDecimal.ofDecimal (α := α)) :: _) = _
  rw [move, hselects]
  exact foldlM_words (d.map OfDecimal.ofDecimal)

end Line

end Toolpath
