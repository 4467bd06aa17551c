import Toolpath.Proofs.Gcode.Line
import Toolpath.Proofs.Number.Plain
import Toolpath.Proofs.OrderedScalar

/-!
# The grammar of motion lines

Which lines are read as a move, and as which. What counts of a line spells words: a letter with a
plain numeral right behind it, and blanks around the words or none. The scanner takes as much for a
numeral as it can, and that is never too much: a line is read exactly if its words are of this form,
the first one selects a kind of move, and the others have the letters of values.

* `Line.Spells` — a text spells words
* `Line.words_eq_ok_iff` — the texts whose words are read
* `Line.Means` — the move that words mean
* `Line.read_eq_ok_iff` — the lines that are read
-/

namespace Toolpath

variable {α : Type}

/-- A word as it is written: a letter, and the numeral behind it. -/
structure Lexeme where
  letter : Char
  numeral : PlainNumeral
  isAlpha : letter.isAlpha = true

namespace Lexeme

/-- The word in characters. -/
def text (l : Lexeme) : List Char := l.letter :: l.numeral.text

/-- The word with the number that its numeral is read as. -/
def word [OfDecimal α] (l : Lexeme) : Word α := ⟨l.letter, OfDecimal.ofDecimal l.numeral.decimal⟩

end Lexeme

namespace Line

/-- A text spells words. A numeral ends where no more of its characters follow; before a word, and
behind the last one, there are any number of blanks. -/
inductive Spells : List Char → List Lexeme → Prop
  | nil : Spells [] []
  | blank {c : Char} {rest : List Char} {ls : List Lexeme} (hblank : Text.isBlank c = true)
    (h : Spells rest ls) : Spells (c :: rest) ls
  | word (l : Lexeme) {rest : List Char} {ls : List Lexeme}
    (hstop : ∀ c ∈ rest.head?, inNumeral c = false) (h : Spells rest ls) :
    Spells (l.text ++ rest) (l :: ls)

/-! ## Characters -/

/-- What holds of the first characters holds of a character that is one of them. -/
theorem forall_char_of_lt {bound : Nat} {p : Char → Prop}
    (h : ∀ n ∈ List.range bound, p (Char.ofNat n)) {c : Char} (hc : c.toNat < bound) : p c := by
  have hp := h c.toNat (List.mem_range.mpr hc)
  rwa [Char.ofNat_toNat] at hp

/-- A letter is neither a blank, nor the start of a comment, nor a part of a numeral. -/
theorem not_blank_of_isAlpha {c : Char} (h : c.isAlpha = true) :
    Text.isBlank c = false ∧ startsComment c = false ∧ inNumeral c = false := by
  have hrange : c.toNat < 123 := by
    rcases (Bool.or_eq_true _ _).mp h with hupper | hlower
    · have hle := UInt32.le_iff_toNat_le.mp (of_decide_eq_true hupper).2
      exact Nat.lt_of_le_of_lt hle (by decide)
    · have hle :=
        UInt32.le_iff_toNat_le.mp (of_decide_eq_true ((Bool.and_eq_true _ _).mp hlower).2)
      exact Nat.lt_of_le_of_lt hle (by decide)
  have hall : ∀ n ∈ List.range 123, (Char.ofNat n).isAlpha = true →
      Text.isBlank (Char.ofNat n) = false ∧ startsComment (Char.ofNat n) = false ∧
        inNumeral (Char.ofNat n) = false := by decide +kernel
  exact forall_char_of_lt (p := fun c => c.isAlpha = true →
    Text.isBlank c = false ∧ startsComment c = false ∧ inNumeral c = false) hall hrange h

theorem inNumeral_of_isBlank {c : Char} (h : Text.isBlank c = true) : inNumeral c = false := by
  rw [← Bool.not_eq_true]
  intro hc
  rw [(plain_of_inNumeral hc).2] at h
  cases h

theorem startsComment_of_isBlank {c : Char} (h : Text.isBlank c = true) :
    startsComment c = false := by
  rw [← Bool.not_eq_true]
  intro hc
  have hcases : c = ';' ∨ c = '(' := by simpa [startsComment] using hc
  rcases hcases with rfl | rfl
  · exact absurd h (by decide)
  · exact absurd h (by decide)

theorem inNumeral_text (n : PlainNumeral) : ∀ c ∈ n.text, inNumeral c = true := by
  intro c hc
  have hdigit (hc : c ∈ n.whole ++ n.fraction.getD []) : inNumeral c = true :=
    inNumeral_of_isDigit (n.isDigit_digits c hc)
  rcases List.mem_append.mp hc with hsign | hbody
  · rcases n.sign_cases c (Option.mem_toList.mp hsign) with rfl | rfl
    · decide
    · decide
  · rcases List.mem_append.mp hbody with hwhole | hfraction
    · exact hdigit (List.mem_append_left _ hwhole)
    · cases hf : n.fraction with
      | none =>
        rw [hf] at hfraction
        exact absurd hfraction List.not_mem_nil
      | some fraction =>
        rw [hf] at hfraction hdigit
        rcases List.mem_cons.mp hfraction with rfl | hfraction
        · decide
        · exact hdigit (List.mem_append_right _ hfraction)

/-! ## The words of a text -/

section

variable [OfDecimal α]

theorem words_cons_of_blank {c : Char} (h : Text.isBlank c = true) (rest : List Char) :
    words (α := α) (c :: rest) = words rest := by rw [words, if_pos h]

theorem words_blanks_append {gap : List Char} (h : ∀ c ∈ gap, Text.isBlank c = true)
    (rest : List Char) : words (α := α) (gap ++ rest) = words rest := by
  induction gap with
  | nil => rfl
  | cons c gap ih =>
    rw [List.cons_append, words_cons_of_blank (h c List.mem_cons_self),
      ih fun c hc => h c (List.mem_cons_of_mem _ hc)]

/-- A word is read before what follows it. -/
theorem words_lexeme_append (l : Lexeme) {rest : List Char}
    (hstop : ∀ c ∈ rest.head?, inNumeral c = false) :
    words (α := α) (l.text ++ rest) = (words rest).map (l.word :: ·) := by
  obtain ⟨htake, hdrop⟩ := Digits.takeWhile_append_stop (inNumeral_text l.numeral) hstop
  show words (l.letter :: (l.numeral.text ++ rest)) = _
  rw [words, (not_blank_of_isAlpha l.isAlpha).1, l.isAlpha, htake, hdrop,
    l.numeral.ofNumeral?_text]
  rfl

/-- The words that a text spells are read before what follows it. -/
theorem Spells.words_append {cs : List Char} {ls : List Lexeme} (h : Spells cs ls)
    {rest : List Char} (hrest : ∀ c ∈ rest.head?, inNumeral c = false) :
    words (α := α) (cs ++ rest) = (words rest).map (ls.map Lexeme.word ++ ·) := by
  induction h with
  | nil =>
    show words rest = (words rest).map id
    cases words (α := α) rest <;> rfl
  | blank hblank _ ih => rw [List.cons_append, words_cons_of_blank hblank, ih]
  | @word l front ls hstop _ ih =>
    have hnext : ∀ c ∈ (front ++ rest).head?, inNumeral c = false := by
      cases front with
      | nil => exact hrest
      | cons c front => exact hstop
    rw [List.append_assoc, words_lexeme_append l hnext, ih]
    cases words (α := α) rest <;> rfl

theorem Spells.words_eq {cs : List Char} {ls : List Lexeme} (h : Spells cs ls) :
    words (α := α) cs = .ok (ls.map Lexeme.word) := by
  have hend : ∀ c ∈ ([] : List Char).head?, inNumeral c = false := by simp
  have hwords := h.words_append (α := α) hend
  rw [List.append_nil, words] at hwords
  exact hwords.trans (congrArg Except.ok (List.append_nil _))

/-- Words that are read are spelled. -/
theorem exists_spells {cs : List Char} {ws : List (Word α)} (h : words cs = .ok ws) :
    ∃ ls, Spells cs ls ∧ ls.map Lexeme.word = ws := by
  induction cs using words.induct generalizing ws with
  | case1 =>
    rw [words] at h
    cases h
    exact ⟨[], .nil, rfl⟩
  | case2 c rest hblank ih =>
    rw [words_cons_of_blank hblank] at h
    obtain ⟨ls, hls, hws⟩ := ih h
    exact ⟨ls, .blank hblank hls, hws⟩
  | case3 c rest hblank halpha =>
    rw [words, if_neg hblank, if_pos halpha] at h
    cases h
  | case4 c rest hblank halpha hnumeral =>
    rw [words, if_neg hblank, if_neg halpha, hnumeral] at h
    cases h
  | case5 c rest hblank halpha d hnumeral ih =>
    rw [words, if_neg hblank, if_neg halpha, hnumeral] at h
    cases hrest : words (α := α) (rest.dropWhile inNumeral) with
    | error e =>
      rw [hrest] at h
      cases h
    | ok ws' =>
      rw [hrest] at h
      obtain ⟨ls, hls, hws⟩ := ih hrest
      obtain ⟨n, htext, hdecimal⟩ := Decimal.ofNumeral?_eq_some_iff.mp hnumeral
      let l : Lexeme := ⟨c, n, by simpa using halpha⟩
      have hstop : ∀ c ∈ (rest.dropWhile inNumeral).head?, inNumeral c = false := by
        intro c hc
        have hhead := List.head?_dropWhile_not inNumeral rest
        rw [Option.mem_def.mp hc] at hhead
        exact hhead
      have hcs : l.text ++ rest.dropWhile inNumeral = c :: rest := by
        show c :: (n.text ++ rest.dropWhile inNumeral) = _
        rw [htext, List.takeWhile_append_dropWhile]
      refine ⟨l :: ls, hcs ▸ .word l hstop hls, ?_⟩
      rw [List.map_cons, hws, ← Except.ok.inj h, ← hdecimal]
      rfl

/-- **The texts whose words are read are those that spell words.** -/
theorem words_eq_ok_iff {cs : List Char} {ws : List (Word α)} :
    words cs = .ok ws ↔ ∃ ls, Spells cs ls ∧ ls.map Lexeme.word = ws := by
  refine ⟨exists_spells, ?_⟩
  rintro ⟨ls, hls, rfl⟩
  exact hls.words_eq

end

/-! ## The move that words mean -/

/-- The letters of the values of a move. -/
def valueLetters : List Char := ['X', 'Y', 'Z', 'I', 'J', 'F']

end Line

/-- The value of the last word with a letter. -/
def Word.last? (letter : Char) (ws : List (Word α)) : Option α :=
  (ws.filter (·.letter == letter)).getLast?.map (·.value)

theorem Word.last?_cons (letter : Char) (w : Word α) (ws : List (Word α)) :
    last? letter (w :: ws) = (last? letter ws).or (last? letter [w]) := by
  rw [last?, ← List.singleton_append, List.filter_append, List.getLast?_append, Option.map_or]
  rfl

/-- A move with the values of words. -/
def Move.withWords (d : Move α) (ws : List (Word α)) : Move α where
  kind := d.kind
  x := (Word.last? 'X' ws).or d.x
  y := (Word.last? 'Y' ws).or d.y
  z := (Word.last? 'Z' ws).or d.z
  i := (Word.last? 'I' ws).or d.i
  j := (Word.last? 'J' ws).or d.j
  feed := (Word.last? 'F' ws).or d.feed

theorem Move.withWords_cons (d : Move α) (w : Word α) (ws : List (Word α)) :
    d.withWords (w :: ws) = (d.withWords [w]).withWords ws := by
  simp only [withWords, Word.last?_cons _ w ws, Option.or_assoc]

namespace Line

theorem setWord_eq {w : Word α} (h : w.letter ∈ valueLetters) (d : Move α) :
    setWord d w = .ok (d.withWords [w]) := by
  obtain ⟨letter, v⟩ := w
  simp only [valueLetters, List.mem_cons, List.not_mem_nil, or_false] at h
  rcases h with rfl | rfl | rfl | rfl | rfl | rfl <;> rfl

theorem setWord_error {w : Word α} (h : w.letter ∉ valueLetters) (d : Move α) :
    setWord d w = .error (.unsupported w.letter) := by
  unfold setWord
  split
  all_goals first
    | rfl
    | exact absurd (by simp [valueLetters, *]) h

/-- **Later words set the values of a move**, each letter the last time it comes. -/
theorem foldlM_setWord_iff {ws : List (Word α)} {d d' : Move α} :
    ws.foldlM setWord d = .ok d' ↔
      (∀ w ∈ ws, w.letter ∈ valueLetters) ∧ d' = d.withWords ws := by
  induction ws generalizing d with
  | nil =>
    have hsame : d.withWords [] = d := rfl
    rw [hsame]
    exact ⟨fun h => ⟨by simp, (Except.ok.inj h).symm⟩, fun h => congrArg Except.ok h.2.symm⟩
  | cons w ws ih =>
    rw [List.foldlM_cons, List.forall_mem_cons, d.withWords_cons]
    by_cases hw : w.letter ∈ valueLetters
    · rw [setWord_eq hw]
      exact ih.trans (by simp [hw])
    · rw [setWord_error hw]
      exact iff_of_false (fun h => nomatch h) fun h => hw h.1.1

/-- The kinds have different numbers. -/
theorem eq_of_number_beq {k k' : MoveKind}
    (h : (Float.ofNat k.code == Float.ofNat k'.code) = true) : k = k' := by
  cases k <;> cases k' <;> first | rfl | exact absurd h (by decide +kernel)

/-- **A kind of move is selected by its number**, and by nothing else. -/
theorem kind?_eq_some_iff {value : Float} {k : MoveKind} :
    kind? value = some k ↔ (value == Float.ofNat k.code) = true := by
  have hnumber (k : MoveKind) :
      (OfDecimal.ofDecimal ⟨false, k.code, 0⟩ : Float) = Float.ofNat k.code := by
    cases k <;> decide +kernel
  constructor
  · intro h
    have hfound := List.find?_some h
    rwa [hnumber] at hfound
  · intro h
    cases hk : kind? value with
    | none =>
      have hnone := List.find?_eq_none.mp hk k (by cases k <;> decide)
      rw [hnumber] at hnone
      exact absurd h hnone
    | some k' =>
      have hfound := List.find?_some hk
      rw [hnumber] at hfound
      -- the value has the rank of both numbers
      obtain ⟨⟨-, hk'⟩, hrank'⟩ := FloatOrder.beq_iff.mp hfound
      obtain ⟨⟨-, hk⟩, hrank⟩ := FloatOrder.beq_iff.mp h
      exact congrArg some (eq_of_number_beq (FloatOrder.beq_iff.mpr
        ⟨⟨hk', hk⟩, hrank'.symm.trans hrank⟩))

theorem selects?_eq_some_iff {w : Word Float} {k : MoveKind} :
    selects? w = some k ↔ w.letter = 'G' ∧ (w.value == Float.ofNat k.code) = true := by
  unfold selects?
  by_cases h : w.letter = 'G'
  · rw [if_pos h, kind?_eq_some_iff]
    exact (and_iff_right h).symm
  · rw [if_neg h]
    exact iff_of_false (fun hnone => nomatch hnone) fun hw => h hw.1

/-- Words mean a move. -/
structure Means (first : Lexeme) (later : List Lexeme) (d : Move Float) : Prop where
  letter_eq : first.letter = 'G'
  /-- The number behind the letter G is that of the kind. -/
  selects : ((first.word : Word Float).value == Float.ofNat d.kind.code) = true
  letter_mem : ∀ l ∈ later, l.letter ∈ valueLetters
  x : d.x = Word.last? 'X' (later.map Lexeme.word)
  y : d.y = Word.last? 'Y' (later.map Lexeme.word)
  z : d.z = Word.last? 'Z' (later.map Lexeme.word)
  i : d.i = Word.last? 'I' (later.map Lexeme.word)
  j : d.j = Word.last? 'J' (later.map Lexeme.word)
  feed : d.feed = Word.last? 'F' (later.map Lexeme.word)

theorem means_iff {first : Lexeme} {later : List Lexeme} {d : Move Float} :
    Means first later d ↔
      selects? (first.word : Word Float) = some d.kind ∧
        (later.map Lexeme.word).foldlM setWord { kind := d.kind } = .ok d := by
  have hletters : (∀ w ∈ later.map (Lexeme.word (α := Float)), w.letter ∈ valueLetters) ↔
      ∀ l ∈ later, l.letter ∈ valueLetters := List.forall_mem_map
  rw [selects?_eq_some_iff, foldlM_setWord_iff, hletters]
  obtain ⟨kind, x, y, z, i, j, feed⟩ := d
  simp only [Move.withWords, Option.or_none, Move.mk.injEq, true_and]
  constructor
  · rintro ⟨hg, hk, hl, hx, hy, hz, hi, hj, hf⟩
    exact ⟨⟨hg, hk⟩, hl, hx, hy, hz, hi, hj, hf⟩
  · rintro ⟨⟨hg, hk⟩, hl, hx, hy, hz, hi, hj, hf⟩
    exact ⟨hg, hk, hl, hx, hy, hz, hi, hj, hf⟩

/-- The first word selects the kind of the move, and the later ones set its values. -/
theorem move_eq_ok_iff {ls : List Lexeme} {d : Move Float} :
    move (ls.map Lexeme.word) = .ok d ↔
      ∃ first later, ls = first :: later ∧ Means first later d := by
  cases ls with
  | nil => exact iff_of_false (fun h => nomatch h) fun ⟨_, _, h, _⟩ => nomatch h
  | cons first later =>
    rw [List.map_cons, move]
    constructor
    · intro h
      cases hs : selects? (first.word : Word Float) with
      | none =>
        rw [hs] at h
        cases h
      | some k =>
        rw [hs] at h
        have hkind : d.kind = k := by rw [(foldlM_setWord_iff.mp h).2, Move.withWords]
        exact ⟨first, later, rfl, means_iff.mpr ⟨hkind ▸ hs, hkind ▸ h⟩⟩
    · rintro ⟨_, _, hls, hmeans⟩
      obtain ⟨rfl, rfl⟩ := List.cons.inj hls
      obtain ⟨hs, hd⟩ := means_iff.mp hmeans
      rw [hs]
      exact hd

/-- A line that spells words is read as what they mean. -/
theorem Spells.read_eq_ok_iff {line : String} {first : Lexeme} {later : List Lexeme}
    (h : Spells (code line.toList) (first :: later)) {d : Move Float} :
    read line = .ok d ↔ Means first later d := by
  have hsome : ¬(code line.toList).isEmpty = true := by
    intro hempty
    rw [List.isEmpty_iff.mp hempty] at h
    nomatch h
  have hread : (read line : Except LineError (Move Float)) =
      move ((first :: later).map Lexeme.word) := by
    rw [read, if_neg hsome, h.words_eq]
    rfl
  rw [hread, move_eq_ok_iff]
  constructor
  · rintro ⟨_, _, hls, hmeans⟩
    obtain ⟨rfl, rfl⟩ := List.cons.inj hls
    exact hmeans
  · exact fun hmeans => ⟨first, later, rfl, hmeans⟩

/-- **The lines that are read, and what they are read as.** -/
theorem read_eq_ok_iff {line : String} {d : Move Float} :
    read line = .ok d ↔
      ∃ first later, Spells (code line.toList) (first :: later) ∧ Means first later d := by
  constructor
  · intro h
    unfold read at h
    by_cases hempty : (code line.toList).isEmpty = true
    · rw [if_pos hempty] at h
      cases h
    · rw [if_neg hempty] at h
      cases hws : words (α := Float) (code line.toList) with
      | error e =>
        rw [hws] at h
        cases h
      | ok ws =>
        rw [hws] at h
        obtain ⟨ls, hls, rfl⟩ := words_eq_ok_iff.mp hws
        obtain ⟨first, later, rfl, hmeans⟩ := move_eq_ok_iff.mp h
        exact ⟨first, later, hls, hmeans⟩
  · rintro ⟨first, later, hls, hmeans⟩
    exact hls.read_eq_ok_iff.mpr hmeans

end Line

end Toolpath
