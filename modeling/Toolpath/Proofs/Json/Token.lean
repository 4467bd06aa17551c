import Mathlib.Tactic.IntervalCases
import Toolpath.Proofs.Json.Numeral

/-!
# The tokens of a printed value

A value that is printed, on one line or set out over several, comes apart into tokens that depend on
the value alone. What stands behind it does not matter, as long as no number goes on there.

* `scanString_quoted` — a string between quotes is scanned as it was, every escape undone
* `tokens_numeral` — a numeral is one token
* `Json.tokenList` — the tokens of a value
* `Json.tokens_compact`, `Json.tokens_spread` — both texts of a value have these tokens
-/

namespace Toolpath.Json

/-! ## Strings -/

theorem hexValue?_hexDigit {d : ℕ} (h : d < 16) : hexValue? (hexDigit d) = some d := by
  have hall : ∀ e ∈ List.range 16, hexValue? (hexDigit e) = some e := by decide
  exact hall d (List.mem_range.mpr h)

/-- A control character is read back from its four digits. -/
theorem hexValue4?_control {n : ℕ} (h : n < 32) :
    hexValue4? '0' '0' (hexDigit (n / 16)) (hexDigit (n % 16)) = some n := by
  have hzero : hexValue? '0' = some 0 := by decide
  have hsplit : ((0 * 16 + 0) * 16 + n / 16) * 16 + n % 16 = n := by omega
  simp only [hexValue4?, hzero, hexValue?_hexDigit (show n / 16 < 16 by omega),
    hexValue?_hexDigit (show n % 16 < 16 by omega), bind, Option.bind, pure, hsplit]

theorem eq_ofNat_of_toNat_eq {c : Char} {n : ℕ} (h : c.toNat = n) : c = Char.ofNat n := by
  rw [← h, Char.ofNat_toNat]

/-- The escape of a character stands for that character. -/
theorem scanString_escaped (seen : List Char) (c : Char) (rest : List Char) :
    scanString true seen (escaped c ++ rest) = scanString true (c :: seen) rest := by
  -- seven characters have an escape of their own, other control characters have four digits
  unfold escaped
  split
  · next h => simp [scanString, shortEscape?, h]
  split
  · next h => simp [scanString, shortEscape?, h]
  split
  · next h => simp [scanString, shortEscape?, eq_ofNat_of_toNat_eq h]
  split
  · next h => simp [scanString, shortEscape?, eq_ofNat_of_toNat_eq h]
  split
  · next h => simp [scanString, shortEscape?, h]
  split
  · next h => simp [scanString, shortEscape?, h]
  split
  · next h => simp [scanString, shortEscape?, h]
  split
  · next hcontrol =>
    -- what the digits stand for is no half of a pair
    have htrailing : isTrailing c.toNat = false := by simp [isTrailing]; omega
    have hleading : isLeading c.toNat = false := by simp [isLeading]; omega
    simp [scanString, hexValue4?_control hcontrol, htrailing, hleading]
  · next hquote hbackslash _ _ _ _ _ hplain =>
    rw [List.singleton_append, scanString.eq_def]
    split <;> simp_all

/-- **A string is read back from between its quotes.** -/
theorem scanString_quoted (seen cs rest : List Char) :
    scanString true seen (cs.flatMap escaped ++ '"' :: rest) =
      .ok (some (seen.reverse ++ cs), rest) := by
  induction cs generalizing seen with
  | nil => simp [scanString]
  | cons c cs ih =>
    rw [List.flatMap_cons, List.append_assoc, scanString_escaped, ih, List.reverse_cons,
      List.append_assoc]
    rfl

/-! ## One token -/

theorem tokens_of_scanToken {c : Char} {rest left : List Char} {t : Token}
    (hc : isSpace c = false) (h : scanToken c rest = (t, left)) :
    tokens (c :: rest) = t :: tokens left := by
  rw [tokens, if_neg (by simp [hc]), h]

@[simp]
theorem tokens_nil : tokens [] = [] := by rw [tokens]

@[simp]
theorem tokens_openArray (rest : List Char) : tokens ('[' :: rest) = .openArray :: tokens rest :=
  tokens_of_scanToken rfl rfl

@[simp]
theorem tokens_closeArray (rest : List Char) : tokens (']' :: rest) = .closeArray :: tokens rest :=
  tokens_of_scanToken rfl rfl

@[simp]
theorem tokens_openObject (rest : List Char) :
    tokens ('\x7b' :: rest) = .openObject :: tokens rest :=
  tokens_of_scanToken rfl rfl

@[simp]
theorem tokens_closeObject (rest : List Char) :
    tokens ('\x7d' :: rest) = .closeObject :: tokens rest :=
  tokens_of_scanToken rfl rfl

@[simp]
theorem tokens_comma (rest : List Char) : tokens (',' :: rest) = .comma :: tokens rest :=
  tokens_of_scanToken rfl rfl

@[simp]
theorem tokens_colon (rest : List Char) : tokens (':' :: rest) = .colon :: tokens rest :=
  tokens_of_scanToken rfl rfl

@[simp]
theorem tokens_null (rest : List Char) :
    tokens ('n' :: 'u' :: 'l' :: 'l' :: rest) = .null :: tokens rest :=
  tokens_of_scanToken rfl rfl

@[simp]
theorem tokens_boolText (b : Bool) (rest : List Char) :
    tokens (boolText b ++ rest) = .bool b :: tokens rest := by
  cases b
  · exact tokens_of_scanToken rfl rfl
  · exact tokens_of_scanToken rfl rfl

@[simp]
theorem tokens_quoted (s : String) (rest : List Char) :
    tokens (quoted s ++ rest) = .string (some s) :: tokens rest := by
  have hscan : scanToken '"' (s.toList.flatMap escaped ++ '"' :: rest) =
      (.string (some s), rest) := by
    simp [scanToken, scanString_quoted]
  rw [quoted, List.cons_append, List.cons_append, List.append_assoc]
  exact tokens_of_scanToken rfl hscan

/-- Blanks between tokens are no tokens. -/
theorem tokens_blanks {blanks : List Char} (h : ∀ c ∈ blanks, isSpace c = true)
    (rest : List Char) : tokens (blanks ++ rest) = tokens rest := by
  induction blanks with
  | nil => rfl
  | cons c blanks ih =>
    obtain ⟨hc, hblanks⟩ := List.forall_mem_cons.mp h
    rw [List.cons_append, tokens, if_pos hc, ih hblanks]

@[simp]
theorem tokens_blank (rest : List Char) : tokens (' ' :: rest) = tokens rest :=
  tokens_blanks (List.forall_mem_singleton.mpr (show isSpace ' ' = true from rfl)) rest

@[simp]
theorem tokens_newLine (depth : ℕ) (rest : List Char) :
    tokens (newLine depth ++ rest) = tokens rest := by
  apply tokens_blanks
  intro c hc
  obtain rfl | hc := List.mem_cons.mp hc
  · decide
  · rw [List.eq_of_mem_replicate hc]
    decide

/-! ## Numbers -/

theorem isSpace_digit {c : Char} (h : Digits.isDigit c = true) : isSpace c = false := by
  obtain ⟨d, hd, rfl⟩ := Digits.exists_char_of_isDigit h
  interval_cases d <;> rfl

theorem scanToken_digit {c : Char} (h : Digits.isDigit c = true) (rest : List Char) :
    scanToken c rest = numberToken false (c :: rest) := by
  obtain ⟨d, hd, rfl⟩ := Digits.exists_char_of_isDigit h
  interval_cases d <;> rfl

/-- A numeral is one token. -/
theorem tokens_numeral {n : Numeral} (h : n.Proper) {rest : List Char} (hrest : Bounded rest) :
    tokens (Exact.sign n.negative ++ n.body ++ rest) = .number n :: tokens rest := by
  have hscan : numberToken n.negative (n.body ++ rest) = (.number n, rest) := by
    rw [numberToken, Numeral.scanNumber_body h hrest]
  cases hsign : n.negative with
  | true =>
    rw [hsign] at hscan
    exact tokens_of_scanToken rfl hscan
  | false =>
    -- without a sign the first digit decides what is scanned
    obtain ⟨c, cs, hbody, hdigit⟩ := h.body_eq_cons
    rw [hsign, hbody] at hscan
    rw [hbody]
    exact tokens_of_scanToken (isSpace_digit hdigit) ((scanToken_digit hdigit _).trans hscan)

@[simp]
theorem tokens_integerText (n : ℤ) {rest : List Char} (hrest : Bounded rest) :
    tokens (integerText n ++ rest) = .number (.ofInt n) :: tokens rest := by
  rw [Numeral.integerText_eq]
  exact tokens_numeral (Numeral.proper_ofInt n) hrest

/-- The token of a float. -/
def realToken (x : Float) : Token := if x.isFinite then .number (.ofFloat x) else .null

@[simp]
theorem tokens_realText (x : Float) {rest : List Char} (hrest : Bounded rest) :
    tokens (realText x ++ rest) = realToken x :: tokens rest := by
  by_cases hx : x.isFinite = true
  · rw [Numeral.realText_eq hx, realToken, if_pos hx]
    exact tokens_numeral (Numeral.proper_ofFloat x) hrest
  · rw [realText, realToken, if_neg hx, if_neg hx]
    exact tokens_null rest

/-! ## The tokens of a value -/

mutual

/-- The tokens of a value. -/
def tokenList : Json → List Token
  | .null => [.null]
  | .bool b => [.bool b]
  | .integer n => [.number (.ofInt n)]
  | .real x => [realToken x]
  | .string s => [.string (some s)]
  | .array items => .openArray :: itemTokens items ++ [.closeArray]
  | .object fields => .openObject :: fieldTokens fields ++ [.closeObject]

/-- The tokens of items with commas between them. -/
def itemTokens : List Json → List Token
  | [] => []
  | [v] => tokenList v
  | v :: rest => tokenList v ++ .comma :: itemTokens rest

/-- The tokens of fields with commas between them. -/
def fieldTokens : List (String × Json) → List Token
  | [] => []
  | [(name, v)] => .string (some name) :: .colon :: tokenList v
  | (name, v) :: rest =>
    .string (some name) :: .colon :: tokenList v ++ .comma :: fieldTokens rest

end

theorem bounded_comma (rest : List Char) : Bounded (',' :: rest) := bounded_cons rfl rest

theorem bounded_closeArray (rest : List Char) : Bounded (']' :: rest) := bounded_cons rfl rest

theorem bounded_closeObject (rest : List Char) : Bounded ('\x7d' :: rest) := bounded_cons rfl rest

theorem bounded_newLine (depth : ℕ) (rest : List Char) : Bounded (newLine depth ++ rest) :=
  bounded_cons rfl _

mutual

/-- **The text of a value on one line has the tokens of the value.** -/
theorem tokens_compact : ∀ (v : Json) {rest : List Char}, Bounded rest →
    tokens (compact v ++ rest) = tokenList v ++ tokens rest
  | .null, rest, _ => tokens_null rest
  | .bool b, rest, _ => tokens_boolText b rest
  | .integer n, _, hrest => tokens_integerText n hrest
  | .real x, _, hrest => tokens_realText x hrest
  | .string s, rest, _ => tokens_quoted s rest
  | .array items, rest, _ => by
    have hitems := tokens_compactItems items (bounded_closeArray rest)
    simp only [compact, tokenList, List.cons_append, List.append_assoc, List.nil_append,
      tokens_openArray, hitems, tokens_closeArray]
  | .object fields, rest, _ => by
    have hfields := tokens_compactFields fields (bounded_closeObject rest)
    simp only [compact, tokenList, List.cons_append, List.append_assoc, List.nil_append,
      tokens_openObject, hfields, tokens_closeObject]

theorem tokens_compactItems : ∀ (items : List Json) {rest : List Char}, Bounded rest →
    tokens (compactItems items ++ rest) = itemTokens items ++ tokens rest
  | [], _, _ => rfl
  | [v], _, hrest => tokens_compact v hrest
  | v :: w :: items, rest, hrest => by
    -- a number in front of the comma ends there
    have hv := tokens_compact v (bounded_comma (compactItems (w :: items) ++ rest))
    have hitems := tokens_compactItems (w :: items) hrest
    simp only [compactItems, itemTokens, List.cons_append, List.append_assoc] at hitems ⊢
    rw [hv, tokens_comma, hitems]

theorem tokens_compactFields : ∀ (fields : List (String × Json)) {rest : List Char}, Bounded rest →
    tokens (compactFields fields ++ rest) = fieldTokens fields ++ tokens rest
  | [], _, _ => rfl
  | [(name, v)], _, hrest => by
    simp only [compactFields, fieldTokens, List.cons_append, List.append_assoc, tokens_quoted,
      tokens_colon, tokens_compact v hrest]
  | (name, v) :: f :: fields, rest, hrest => by
    have hv := tokens_compact v (bounded_comma (compactFields (f :: fields) ++ rest))
    have hfields := tokens_compactFields (f :: fields) hrest
    simp only [compactFields, fieldTokens, List.cons_append, List.append_assoc, tokens_quoted,
      tokens_colon] at hfields ⊢
    rw [hv, tokens_comma, hfields]

end

mutual

/-- **The text of a value over several lines has the same tokens.** -/
theorem tokens_spread : ∀ (depth : ℕ) (v : Json) {rest : List Char}, Bounded rest →
    tokens (spread depth v ++ rest) = tokenList v ++ tokens rest
  | _, .null, rest, _ => tokens_null rest
  | _, .bool b, rest, _ => tokens_boolText b rest
  | _, .integer n, _, hrest => tokens_integerText n hrest
  | _, .real x, _, hrest => tokens_realText x hrest
  | _, .string s, rest, _ => tokens_quoted s rest
  | _, .array [], rest, _ => by simp [spread, tokenList, itemTokens]
  | _, .object [], rest, _ => by simp [spread, tokenList, fieldTokens]
  | depth, .array (v :: items), rest, _ => by
    have hitems := tokens_spreadItems (depth + 1) (v :: items) (bounded_newLine depth (']' :: rest))
    simp only [spread, tokenList, List.cons_append, List.append_assoc, List.nil_append,
      tokens_openArray, hitems, tokens_newLine, tokens_closeArray]
  | depth, .object (f :: fields), rest, _ => by
    have hfields :=
      tokens_spreadFields (depth + 1) (f :: fields) (bounded_newLine depth ('\x7d' :: rest))
    simp only [spread, tokenList, List.cons_append, List.append_assoc, List.nil_append,
      tokens_openObject, hfields, tokens_newLine, tokens_closeObject]

theorem tokens_spreadItems : ∀ (depth : ℕ) (items : List Json) {rest : List Char}, Bounded rest →
    tokens (spreadItems depth items ++ rest) = itemTokens items ++ tokens rest
  | _, [], _, _ => rfl
  | depth, [v], _, hrest => by
    simp only [spreadItems, itemTokens, List.append_assoc, tokens_newLine,
      tokens_spread depth v hrest]
  | depth, v :: w :: items, rest, hrest => by
    have hv := tokens_spread depth v (bounded_comma (spreadItems depth (w :: items) ++ rest))
    have hitems := tokens_spreadItems depth (w :: items) hrest
    simp only [spreadItems, itemTokens, List.cons_append, List.append_assoc, tokens_newLine]
      at hitems ⊢
    rw [hv, tokens_comma, hitems]

theorem tokens_spreadFields : ∀ (depth : ℕ) (fields : List (String × Json)) {rest : List Char},
    Bounded rest → tokens (spreadFields depth fields ++ rest) = fieldTokens fields ++ tokens rest
  | _, [], _, _ => rfl
  | depth, [(name, v)], _, hrest => by
    simp only [spreadFields, fieldTokens, List.cons_append, List.append_assoc, tokens_newLine,
      tokens_quoted, tokens_colon, tokens_blank, tokens_spread depth v hrest]
  | depth, (name, v) :: f :: fields, rest, hrest => by
    have hv := tokens_spread depth v (bounded_comma (spreadFields depth (f :: fields) ++ rest))
    have hfields := tokens_spreadFields depth (f :: fields) hrest
    simp only [spreadFields, fieldTokens, List.cons_append, List.append_assoc, tokens_newLine,
      tokens_quoted, tokens_colon, tokens_blank] at hfields ⊢
    rw [hv, tokens_comma, hfields]

end

end Toolpath.Json
