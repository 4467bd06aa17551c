import Toolpath.Proofs.Gcode.Grammar

/-!
# Other spellings of a line

What can be changed in a motion line without changing the move that it is read as: small letters for
capital ones, the blanks between the words, a comment at the end, and the order of the words behind
the first, as long as words with one letter keep theirs.

* `Line.read_congr` — only the words count, and whether there is anything but blanks
* `Lexeme.SameOrder` — the words of each letter come in one order
* `Line.read_grammar` — which lines are read, and what can be changed in them
-/

namespace Toolpath

/-! ## Blanks at the ends -/

namespace Text

/-- A text is its trimmed part with blanks around it. -/
theorem exists_trim (cs : List Char) :
    ∃ front back, cs = front ++ trim cs ++ back ∧ (∀ c ∈ front, isBlank c = true) ∧
      ∀ c ∈ back, isBlank c = true := by
  let rest := cs.dropWhile isBlank
  refine ⟨cs.takeWhile isBlank, (rest.reverse.takeWhile isBlank).reverse, ?_,
    fun c hc => List.mem_takeWhile_imp hc,
    fun c hc => List.mem_takeWhile_imp (List.mem_reverse.mp hc)⟩
  have hback : trim cs ++ (rest.reverse.takeWhile isBlank).reverse = rest := by
    rw [trim, ← List.reverse_append, List.takeWhile_append_dropWhile, List.reverse_reverse]
  rw [List.append_assoc, hback, List.takeWhile_append_dropWhile]

/-- Nothing is left of a text exactly if it is blank. -/
theorem isEmpty_trim (cs : List Char) : (trim cs).isEmpty = cs.all isBlank := by
  rw [Bool.eq_iff_iff, List.isEmpty_iff, List.all_eq_true]
  constructor
  · intro h
    obtain ⟨front, back, hcs, hfront, hback⟩ := exists_trim cs
    rw [hcs, h, List.append_nil]
    exact List.forall_mem_append.mpr ⟨hfront, hback⟩
  · intro h
    rw [trim, List.dropWhile_eq_nil_iff.mpr h]
    rfl

end Text

namespace Line

/-- A run of what has a property does not reach into a text that begins with what has it not. -/
theorem takeWhile_append_of_stop {p : Char → Bool} (cs : List Char) {rest : List Char}
    (hstop : ∀ c ∈ rest.head?, p c = false) :
    (cs ++ rest).takeWhile p = cs.takeWhile p ∧
      (cs ++ rest).dropWhile p = cs.dropWhile p ++ rest := by
  induction cs with
  | nil => exact Digits.takeWhile_append_stop (l := []) (by simp) hstop
  | cons c cs ih =>
    cases hc : p c with
    | true => simp [hc, ih]
    | false => simp [hc]

section

variable {α : Type} [OfDecimal α]

/-- Blanks behind the last word make no difference, whether the words are read or not. -/
theorem words_append_blanks (cs : List Char) {gap : List Char}
    (h : ∀ c ∈ gap, Text.isBlank c = true) : words (α := α) (cs ++ gap) = words cs := by
  have hstop : ∀ c ∈ gap.head?, inNumeral c = false :=
    fun c hc => inNumeral_of_isBlank (h c (List.mem_of_head? hc))
  induction cs using words.induct with
  | case1 =>
    have hgap := words_blanks_append (α := α) h []
    rwa [List.append_nil] at hgap
  | case2 c rest hblank ih => rw [List.cons_append, words_cons_of_blank hblank, ih,
      words_cons_of_blank hblank]
  | case3 c rest hblank halpha =>
    rw [List.cons_append, words, if_neg hblank, if_pos halpha, words, if_neg hblank, if_pos halpha]
  | case4 c rest hblank halpha hnumeral =>
    rw [List.cons_append, words, if_neg hblank, if_neg halpha, words, if_neg hblank, if_neg halpha,
      (takeWhile_append_of_stop rest hstop).1, hnumeral]
  | case5 c rest hblank halpha d hnumeral ih =>
    obtain ⟨htake, hdrop⟩ := takeWhile_append_of_stop rest hstop
    rw [List.cons_append, words, if_neg hblank, if_neg halpha, words, if_neg hblank, if_neg halpha,
      htake, hdrop, hnumeral, ih]

theorem words_trim (cs : List Char) : words (α := α) (Text.trim cs) = words cs := by
  obtain ⟨front, back, hcs, hfront, hback⟩ := Text.exists_trim cs
  conv_rhs => rw [hcs]
  rw [List.append_assoc, words_blanks_append hfront, words_append_blanks _ hback]

end

/-! ## Case -/

/-- A character is its own capital, or a letter. -/
theorem toUpper_cases (c : Char) :
    c.toUpper = c ∨ c.isAlpha = true ∧ c.toUpper.isAlpha = true := by
  by_cases h : 'a'.val ≤ c.val ∧ c.val ≤ 'z'.val
  · have hrange : c.toNat < 123 := Nat.lt_of_le_of_lt (UInt32.le_iff_toNat_le.mp h.2) (by decide)
    have hall : ∀ n ∈ List.range 123, (Char.ofNat n).toUpper = Char.ofNat n ∨
        (Char.ofNat n).isAlpha = true ∧ (Char.ofNat n).toUpper.isAlpha = true := by decide +kernel
    exact forall_char_of_lt (p := fun c => c.toUpper = c ∨
      c.isAlpha = true ∧ c.toUpper.isAlpha = true) hall hrange
  · exact Or.inl (dif_neg h)

theorem isBlank_toUpper (c : Char) : Text.isBlank c.toUpper = Text.isBlank c := by
  rcases toUpper_cases c with h | ⟨h, h'⟩
  · rw [h]
  · rw [(not_blank_of_isAlpha h).1, (not_blank_of_isAlpha h').1]

theorem startsComment_toUpper (c : Char) : startsComment c.toUpper = startsComment c := by
  rcases toUpper_cases c with h | ⟨h, h'⟩
  · rw [h]
  · rw [(not_blank_of_isAlpha h).2.1, (not_blank_of_isAlpha h').2.1]

theorem inNumeral_toUpper (c : Char) : inNumeral c.toUpper = inNumeral c := by
  rcases toUpper_cases c with h | ⟨h, h'⟩
  · rw [h]
  · rw [(not_blank_of_isAlpha h).2.2, (not_blank_of_isAlpha h').2.2]

/-- What counts of a line, and the blanks around it. -/
def counted (line : List Char) : List Char :=
  (line.map Char.toUpper).takeWhile fun c => !startsComment c

theorem code_eq (line : List Char) : code line = Text.trim (counted line) := by
  have hcomment : (fun c => !startsComment c) ∘ Char.toUpper = fun c => !startsComment c :=
    funext fun c => congrArg (!·) (startsComment_toUpper c)
  have hblank : Text.isBlank ∘ Char.toUpper = Text.isBlank := funext isBlank_toUpper
  simp only [code, counted, Text.trim, List.takeWhile_map, List.dropWhile_map, ← List.map_reverse,
    hcomment, hblank]

/-- **A line is read by the words of what counts of it.** -/
theorem read_eq {α : Type} [OfDecimal α] [BEq α] (line : String) :
    (read line : Except LineError (Move α)) =
      if (counted line.toList).all Text.isBlank then .error .empty
      else (words (counted line.toList)).bind move := by
  rw [read, code_eq, Text.isEmpty_trim, words_trim]

/-- Lines of the same words are read alike. -/
theorem read_congr {line line' : String}
    (hwords : words (α := Float) (counted line.toList) = words (counted line'.toList))
    (hblank : (counted line.toList).all Text.isBlank = (counted line'.toList).all Text.isBlank) :
    (read line : Except LineError (Move Float)) = read line' := by
  rw [read_eq, read_eq, hwords, hblank]

/-- **Case does not matter.** -/
theorem read_of_case {line line' : String}
    (h : line.toList.map Char.toUpper = line'.toList.map Char.toUpper) :
    (read line : Except LineError (Move Float)) = read line' := by
  have hcounted : counted line.toList = counted line'.toList := by rw [counted, h, counted]
  exact read_congr (by rw [hcounted]) (by rw [hcounted])

/-! ## Comments and blanks -/

/-- In what spells words no comment begins. -/
theorem Spells.startsComment_eq {cs : List Char} {ls : List Lexeme} (h : Spells cs ls) :
    ∀ c ∈ cs, startsComment c = false := by
  induction h with
  | nil => exact fun c hc => absurd hc List.not_mem_nil
  | blank hblank _ ih => exact List.forall_mem_cons.mpr ⟨startsComment_of_isBlank hblank, ih⟩
  | word l _ _ ih =>
    refine List.forall_mem_append.mpr ⟨List.forall_mem_cons.mpr ⟨?_, fun c hc => ?_⟩, ih⟩
    · exact (not_blank_of_isAlpha l.isAlpha).2.1
    · exact (plain_of_inNumeral (inNumeral_text l.numeral c hc)).1.1

/-- What counts of a line goes as far as its first comment. -/
theorem counted_append {front : List Char}
    (h : ∀ c ∈ front.map Char.toUpper, startsComment c = false) (rest : List Char) :
    counted (front ++ rest) = front.map Char.toUpper ++ counted rest := by
  rw [counted, List.map_append, List.takeWhile_append_of_pos, counted]
  intro c hc
  rw [h c hc]
  exact Bool.not_false

theorem counted_head {rest : List Char} (h : ∀ c ∈ rest.head?, inNumeral c = false) :
    ∀ c ∈ (counted rest).head?, inNumeral c = false := by
  intro c hc
  cases rest with
  | nil => cases hc
  | cons d rest =>
    rw [counted, List.map_cons, List.takeWhile_cons] at hc
    split at hc
    · obtain rfl : d.toUpper = c := Option.some.inj hc
      rw [inNumeral_toUpper]
      exact h d rfl
    · cases hc

/-- **A comment does not matter.** -/
theorem read_of_comment (line : List Char) {c : Char} (hc : startsComment c = true)
    (comment : List Char) :
    (read (String.ofList (line ++ c :: comment)) : Except LineError (Move Float)) =
      read (String.ofList line) := by
  have hcounted : counted (line ++ c :: comment) = counted line := by
    have hstop : ∀ d ∈ ((c :: comment).map Char.toUpper).head?, (!startsComment d) = false := by
      intro d hd
      obtain rfl : c.toUpper = d := Option.some.inj hd
      rw [startsComment_toUpper, hc]
      exact Bool.not_true
    rw [counted, List.map_append, (takeWhile_append_of_stop _ hstop).1, counted]
  refine read_congr ?_ ?_ <;> rw [String.toList_ofList, String.toList_ofList, hcounted]

/-- **Blanks between words do not matter.** -/
theorem read_of_gap {front gap rest : List Char} {ls : List Lexeme}
    (hfront : Spells (front.map Char.toUpper) ls) (hgap : ∀ c ∈ gap, Text.isBlank c = true)
    (hrest : ∀ c ∈ rest.head?, inNumeral c = false) :
    (read (String.ofList (front ++ gap ++ rest)) : Except LineError (Move Float)) =
      read (String.ofList (front ++ rest)) := by
  let blanks := gap.map Char.toUpper
  have hblanks : ∀ c ∈ blanks, Text.isBlank c = true := by
    intro c hc
    obtain ⟨d, hd, rfl⟩ := List.mem_map.mp hc
    rw [isBlank_toUpper]
    exact hgap d hd
  have hstop := counted_head hrest
  have hnext : ∀ c ∈ (blanks ++ counted rest).head?, inNumeral c = false := by
    cases hb : blanks with
    | nil => exact hstop
    | cons b bs =>
      intro c hc
      obtain rfl : b = c := Option.some.inj hc
      exact inNumeral_of_isBlank (hblanks b (hb ▸ List.mem_cons_self))
  have hwith : counted (front ++ gap ++ rest) =
      front.map Char.toUpper ++ (blanks ++ counted rest) := by
    rw [List.append_assoc, counted_append hfront.startsComment_eq,
      counted_append fun c hc => startsComment_of_isBlank (hblanks c hc)]
  have hwithout : counted (front ++ rest) = front.map Char.toUpper ++ counted rest :=
    counted_append hfront.startsComment_eq rest
  refine read_congr ?_ ?_
  · rw [String.toList_ofList, String.toList_ofList, hwith, hwithout, hfront.words_append hnext,
      hfront.words_append hstop, words_blanks_append hblanks]
  · rw [String.toList_ofList, String.toList_ofList, hwith, hwithout, List.all_append,
      List.all_append, List.all_append, List.all_eq_true.mpr hblanks, Bool.true_and]

/-! ## The order of the words -/

end Line

/-- The words of each letter come in one order. -/
def Lexeme.SameOrder (ls ls' : List Lexeme) : Prop :=
  ∀ letter, ls.filter (·.letter == letter) = ls'.filter (·.letter == letter)

namespace Lexeme.SameOrder

variable {ls ls' : List Lexeme}

theorem symm (h : SameOrder ls ls') : SameOrder ls' ls := fun letter => (h letter).symm

/-- Words of different letters can be put in any order. -/
theorem of_perm (h : ls.Perm ls') (hnodup : (ls.map Lexeme.letter).Nodup) : SameOrder ls ls' := by
  intro letter
  induction h with
  | nil => rfl
  | cons l _ ih =>
    rw [List.filter_cons, List.filter_cons, ih (List.nodup_cons.mp hnodup).2]
  | swap l l' ls =>
    have hne : l'.letter ≠ l.letter := by
      intro heq
      exact (List.nodup_cons.mp hnodup).1 (heq ▸ List.mem_cons_self)
    by_cases hl : l.letter = letter
    · have hl' : ¬l'.letter = letter := fun heq => hne (heq.trans hl.symm)
      simp [hl, hl']
    · simp [List.filter_cons, hl]
  | trans h _ ih ih' => exact (ih hnodup).trans (ih' ((h.map Lexeme.letter).nodup_iff.mp hnodup))

/-- Words in another order have the same last word of each letter. -/
theorem last?_eq {α : Type} [OfDecimal α] (h : SameOrder ls ls') (letter : Char) :
    Word.last? letter (ls.map (word (α := α))) = Word.last? letter (ls'.map word) := by
  have hword (ls : List Lexeme) : (ls.map (word (α := α))).filter (·.letter == letter) =
      (ls.filter (·.letter == letter)).map word := List.filter_map
  rw [Word.last?, Word.last?, hword, hword, h letter]

theorem mem_iff (h : SameOrder ls ls') (l : Lexeme) : l ∈ ls ↔ l ∈ ls' := by
  have hmem (ls : List Lexeme) : l ∈ ls ↔ l ∈ ls.filter (·.letter == l.letter) := by simp
  rw [hmem ls, h, ← hmem]

end Lexeme.SameOrder

namespace Line

theorem Means.of_sameOrder {first : Lexeme} {later later' : List Lexeme} {d : Move Float}
    (h : Means first later d) (horder : Lexeme.SameOrder later later') : Means first later' d where
  letter_eq := h.letter_eq
  selects := h.selects
  letter_mem l hl := h.letter_mem l ((horder.mem_iff l).mpr hl)
  x := h.x.trans (horder.last?_eq 'X')
  y := h.y.trans (horder.last?_eq 'Y')
  z := h.z.trans (horder.last?_eq 'Z')
  i := h.i.trans (horder.last?_eq 'I')
  j := h.j.trans (horder.last?_eq 'J')
  feed := h.feed.trans (horder.last?_eq 'F')

/-- **The order of words with different letters does not matter.** -/
theorem read_of_sameOrder {line line' : String} {first : Lexeme} {later later' : List Lexeme}
    (h : Spells (code line.toList) (first :: later))
    (h' : Spells (code line'.toList) (first :: later')) (horder : Lexeme.SameOrder later later')
    (d : Move Float) : read line = .ok d ↔ read line' = .ok d := by
  rw [h.read_eq_ok_iff, h'.read_eq_ok_iff]
  exact ⟨fun hm => hm.of_sameOrder horder, fun hm => hm.of_sameOrder horder.symm⟩

/-- **The grammar of motion lines.** A line is read as a move exactly if what counts of it spells
words that mean the move. It is read alike in small letters and in capitals, with any blanks between
the words, or before or behind them, and with a comment or without. Words behind the first can be
put in another order if their letters differ; words of one letter keep the order that they have. -/
theorem read_grammar :
    (∀ (line : String) (d : Move Float), read line = .ok d ↔
      ∃ first later, Spells (code line.toList) (first :: later) ∧ Means first later d) ∧
    (∀ line line' : String, line.toList.map Char.toUpper = line'.toList.map Char.toUpper →
      (read line : Except LineError (Move Float)) = read line') ∧
    (∀ (front gap rest : List Char) (ls : List Lexeme), Spells (front.map Char.toUpper) ls →
      (∀ c ∈ gap, Text.isBlank c = true) → (∀ c ∈ rest.head?, inNumeral c = false) →
        (read (String.ofList (front ++ gap ++ rest)) : Except LineError (Move Float)) =
          read (String.ofList (front ++ rest))) ∧
    (∀ (line : List Char) (c : Char) (comment : List Char), startsComment c = true →
      (read (String.ofList (line ++ c :: comment)) : Except LineError (Move Float)) =
        read (String.ofList line)) ∧
    ∀ (line line' : String) (first : Lexeme) (later later' : List Lexeme),
      Spells (code line.toList) (first :: later) → Spells (code line'.toList) (first :: later') →
      (Lexeme.SameOrder later later' ∨ later.Perm later' ∧ (later.map Lexeme.letter).Nodup) →
        ∀ d : Move Float, read line = .ok d ↔ read line' = .ok d := by
  refine ⟨fun line d => read_eq_ok_iff, fun line line' h => read_of_case h,
    fun front gap rest ls hfront hgap hrest => read_of_gap hfront hgap hrest,
    fun line c comment hc => read_of_comment line hc comment, ?_⟩
  rintro line line' first later later' h h' (horder | ⟨hperm, hnodup⟩) d
  · exact read_of_sameOrder h h' horder d
  · exact read_of_sameOrder h h' (.of_perm hperm hnodup) d

/-- A letter with one digit. -/
def oneDigit (letter digit : Char) (hletter : letter.isAlpha = true)
    (hdigit : Digits.isDigit digit = true) : Lexeme :=
  ⟨letter, ⟨none, [digit], none, by simp, by simpa using hdigit, by simp⟩, hletter⟩

/-- A word ends before a character that is no part of a numeral. -/
theorem Spells.before (l : Lexeme) {c : Char} {rest : List Char} {ls : List Lexeme}
    (hc : inNumeral c = false) (h : Spells (c :: rest) ls) :
    Spells (l.text ++ c :: rest) (l :: ls) := by
  refine .word l (fun d hd => ?_) h
  rwa [← Option.some.inj hd]

/-- A straight cut, its coordinates in either order. -/
theorem eitherOrder_read :
    let first := oneDigit 'G' '1' rfl rfl
    let across := oneDigit 'X' '1' rfl rfl
    let along := oneDigit 'Y' '2' rfl rfl
    (Spells (code "g1x1 y2".toList) [first, across, along] ∧
      Spells (code " G1Y2 X1;back".toList) [first, along, across]) ∧
      ∀ d : Move Float, read "g1x1 y2" = .ok d ↔ read " G1Y2 X1;back" = .ok d := by
  intro first across along
  have hend (l : Lexeme) : Spells (l.text ++ []) [l] := .word l (by simp) .nil
  have hcode : code "g1x1 y2".toList = ['G', '1', 'X', '1', ' ', 'Y', '2'] := by decide +kernel
  have hcode' : code " G1Y2 X1;back".toList = ['G', '1', 'Y', '2', ' ', 'X', '1'] := by
    decide +kernel
  have hline : Spells (code "g1x1 y2".toList) [first, across, along] := by
    rw [hcode]
    exact .before first rfl (.before across rfl (.blank rfl (hend along)))
  have hline' : Spells (code " G1Y2 X1;back".toList) [first, along, across] := by
    rw [hcode']
    exact .before first rfl (.before along rfl (.blank rfl (hend across)))
  refine ⟨⟨hline, hline'⟩, ?_⟩
  obtain ⟨-, -, -, -, horder⟩ := read_grammar
  exact horder _ _ _ _ _ hline hline' (Or.inr ⟨.swap along across [], by decide⟩)

/-- A line as it may be written by hand. -/
example : (read "g1 x1x-.5 Y2.(twice)" : Except LineError (Move Float)) =
    .ok { kind := .linear, x := some (-0.5), y := some 2 } := by decide +kernel

end Line

end Toolpath
