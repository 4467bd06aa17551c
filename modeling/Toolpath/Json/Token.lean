import Toolpath.Json.Value

/-!
# JSON tokens

A text as a sequence of tokens. Where the text stops being JSON the last token says so: it is
broken, and the flaw says whether the text ended too early or went wrong.

A string can be read in full, as when its value is wanted, or skimmed, as when it is skipped; a
skimmed string may hold half of a surrogate pair. Tokens keep what both readings find.

## Sections

* flaws, numerals and tokens
* strings
* numbers
* the tokens of a text
-/

namespace Toolpath.Json

/-- How a text fails to be JSON. -/
inductive Flaw where
  /-- The text ends before the value does. -/
  | truncated
  /-- The text goes on in a way in which no value does. -/
  | malformed
  deriving DecidableEq, Repr

/-- A flaw as it shows when the text is read in full and when it is skimmed. -/
structure Break where
  full : Flaw
  skimmed : Flaw
  deriving DecidableEq, Repr

/-- The same flaw either way. -/
def Break.of (f : Flaw) : Break := ⟨f, f⟩

/-- A number as written. -/
structure Numeral where
  negative : Bool
  /-- The digits in front of the point. -/
  whole : List Char
  /-- The digits behind the point. -/
  fraction : List Char
  exponent : Option Int
  deriving DecidableEq, Repr

/-- A token of a text. -/
inductive Token where
  | openArray
  | closeArray
  | openObject
  | closeObject
  | comma
  | colon
  | null
  | bool (b : Bool)
  | number (n : Numeral)
  /-- A string; no value if it holds half of a surrogate pair. -/
  | string (s : Option String)
  /-- A string that does not come to its end. -/
  | brokenString (b : Break)
  /-- A word or a number that does not come to its end, or goes wrong. -/
  | broken (b : Break)
  /-- A character that begins no token. -/
  | stray
  deriving DecidableEq, Repr

/-! ## Strings -/

/-- The value of a digit in base sixteen. -/
def hexValue? (c : Char) : Option Nat :=
  if Digits.isDigit c then some (Digits.digit c)
  else if 'a' ≤ c ∧ c ≤ 'f' then some (c.toNat - 87)
  else if 'A' ≤ c ∧ c ≤ 'F' then some (c.toNat - 55)
  else none

/-- The value of four digits in base sixteen. -/
def hexValue4? (a b c d : Char) : Option Nat := do
  return (((← hexValue? a) * 16 + (← hexValue? b)) * 16 + (← hexValue? c)) * 16 + (← hexValue? d)

/-- What goes wrong where four digits should stand and the text ends: fewer than four bytes are
left, or enough, but others. -/
def hexFlaw (rest : List Char) : Flaw :=
  if (String.ofList (rest.take 4)).utf8ByteSize < 4 then .truncated else .malformed

/-- The character of a short escape. -/
def shortEscape? (c : Char) : Option Char :=
  match c with
  | '"' | '\\' | '/' => some c
  | 'b' => some (Char.ofNat 8)
  | 'f' => some (Char.ofNat 12)
  | 'n' => some '\n'
  | 'r' => some '\r'
  | 't' => some '\t'
  | _ => none

/-- First half of a surrogate pair. -/
def isLeading (n : Nat) : Bool := 0xD800 ≤ n && n ≤ 0xDBFF

/-- Second half of a surrogate pair. -/
def isTrailing (n : Nat) : Bool := 0xDC00 ≤ n && n ≤ 0xDFFF

/-- The character of a surrogate pair. -/
def pair (n m : Nat) : Char := Char.ofNat (0x10000 + (n - 0xD800) * 0x400 + (m - 0xDC00))

/-- A string that has been read, and what follows it; or where it broke off. -/
abbrev StringScan := Except Break (Option (List Char) × List Char)

/-- The flaw that a full reading has met once half a pair was seen. -/
def breakAfter (sound : Bool) (f : Flaw) : Break := ⟨if sound then f else .malformed, f⟩

/-- The characters of a string, from behind its opening quote. `sound` says that no half of a pair
has been met; `seen` holds the characters so far, last first. -/
def scanString (sound : Bool) (seen : List Char) : List Char → StringScan
  | [] => .error (breakAfter sound .truncated)
  | '"' :: rest => .ok (if sound then some seen.reverse else none, rest)
  | ['\\'] => .error (breakAfter sound .truncated)
  | '\\' :: 'u' :: a :: b :: c :: d :: rest =>
    match hexValue4? a b c d with
    | none => .error (breakAfter sound .malformed)
    | some n =>
      if isTrailing n then scanString false seen rest
      else if !isLeading n then scanString sound (Char.ofNat n :: seen) rest
      else match rest with
        | [] => .error (breakAfter sound .truncated)
        | ['\\'] => .error (breakAfter sound .truncated)
        | '\\' :: 'u' :: a' :: b' :: c' :: d' :: rest' =>
          match hexValue4? a' b' c' d' with
          | none => .error (breakAfter sound .malformed)
          | some m =>
            if isTrailing m then scanString sound (pair n m :: seen) rest'
            else scanString false seen rest'
        | '\\' :: 'u' :: short => .error (breakAfter sound (hexFlaw short))
        | other => scanString false seen other
  | '\\' :: 'u' :: short => .error (breakAfter sound (hexFlaw short))
  | '\\' :: c :: rest =>
    match shortEscape? c with
    | some e => scanString sound (e :: seen) rest
    | none => .error (breakAfter sound .malformed)
  | c :: rest =>
    if c.toNat < 32 then .error (breakAfter sound .malformed)
    else scanString sound (c :: seen) rest
termination_by cs => cs.length
decreasing_by all_goals (simp_all; try omega)

/-! ## Numbers -/

/-- Digits that have to be there, and what follows them. -/
def digits1 (cs : List Char) : Except Flaw (List Char × List Char) :=
  if (Digits.span cs).1.isEmpty then
    .error (if (Digits.span cs).2.isEmpty then .truncated else .malformed)
  else .ok (Digits.span cs)

/-- The whole part: a zero alone, or digits that do not begin with one. -/
def wholePart (cs : List Char) : Except Flaw (List Char × List Char) :=
  match digits1 cs with
  | .ok ('0' :: _ :: _, _) => .error .malformed
  | found => found

/-- The fraction, if there is one. -/
def fractionPart : List Char → Except Flaw (List Char × List Char)
  | '.' :: rest => digits1 rest
  | rest => .ok ([], rest)

/-- The sign of an exponent. -/
def exponentSign : List Char → Bool × List Char
  | '-' :: rest => (true, rest)
  | '+' :: rest => (false, rest)
  | rest => (false, rest)

/-- The exponent, if there is one. -/
def exponentPart : List Char → Except Flaw (Option Int × List Char)
  | [] => .ok (none, [])
  | c :: rest =>
    if c = 'e' ∨ c = 'E' then
      let (negative, rest) := exponentSign rest
      (digits1 rest).map fun (ds, rest) =>
        (some (if negative then -(Digits.value ds : Int) else Digits.value ds), rest)
    else .ok (none, c :: rest)

/-- A number, from its sign or its first digit on. -/
def scanNumber (negative : Bool) (cs : List Char) : Except Flaw (Numeral × List Char) := do
  let (whole, rest) ← wholePart cs
  let (fraction, rest) ← fractionPart rest
  let (exponent, rest) ← exponentPart rest
  return (⟨negative, whole, fraction, exponent⟩, rest)

/-! ## The tokens of a text -/

/-- What follows a word, if it stands there in full. -/
def scanWord : List Char → List Char → Except Flaw (List Char)
  | [], rest => .ok rest
  | _ :: _, [] => .error .truncated
  | w :: ws, c :: rest => if c = w then scanWord ws rest else .error .malformed

/-- Blanks between tokens. -/
def isSpace (c : Char) : Bool := c == ' ' || c == '\n' || c == '\t' || c == '\r'

/-- A word token and what follows it. -/
def wordToken (word : List Char) (t : Token) (rest : List Char) : Token × List Char :=
  match scanWord word rest with
  | .ok rest => (t, rest)
  | .error f => (.broken (.of f), [])

/-- A number token and what follows it. To who skims a text, a number that ends too early is no
number. -/
def numberToken (negative : Bool) (cs : List Char) : Token × List Char :=
  match scanNumber negative cs with
  | .ok (n, rest) => (.number n, rest)
  | .error f => (.broken ⟨f, .malformed⟩, [])

/-- The token that begins with a character, and what follows it. Nothing follows a broken one. -/
def scanToken (c : Char) (rest : List Char) : Token × List Char :=
  match c with
  | '[' => (.openArray, rest)
  | ']' => (.closeArray, rest)
  | '\x7b' => (.openObject, rest)
  | '\x7d' => (.closeObject, rest)
  | ',' => (.comma, rest)
  | ':' => (.colon, rest)
  | 'n' => wordToken ['u', 'l', 'l'] .null rest
  | 't' => wordToken ['r', 'u', 'e'] (.bool true) rest
  | 'f' => wordToken ['a', 'l', 's', 'e'] (.bool false) rest
  | '"' =>
    match scanString true [] rest with
    | .ok (s, rest) => (.string (s.map String.ofList), rest)
    | .error b => (.brokenString b, [])
  | '-' => numberToken true rest
  | _ => if Digits.isDigit c then numberToken false (c :: rest) else (.stray, [])

/-! ## What is left gets shorter -/

theorem scanString_length {sound : Bool} {seen cs : List Char} {s : Option (List Char)}
    {left : List Char} (h : scanString sound seen cs = .ok (s, left)) :
    left.length < cs.length := by
  fun_induction scanString sound seen cs <;> simp_all <;> omega

theorem digits1_length {cs : List Char} {found : List Char × List Char}
    (h : digits1 cs = .ok found) : found.2.length < cs.length := by
  have hspan := congrArg List.length (Digits.span_append cs)
  unfold digits1 at h
  split at h
  · simp at h
  · next hne =>
    have hpos : 0 < (Digits.span cs).1.length := List.length_pos_iff.mpr (by simpa using hne)
    rw [List.length_append] at hspan
    rw [← Except.ok.inj h]
    omega

theorem wholePart_length {cs : List Char} {found : List Char × List Char}
    (h : wholePart cs = .ok found) : found.2.length < cs.length := by
  unfold wholePart at h
  split at h
  · simp at h
  · exact digits1_length h

theorem fractionPart_length {cs : List Char} {found : List Char × List Char}
    (h : fractionPart cs = .ok found) : found.2.length ≤ cs.length := by
  unfold fractionPart at h
  split at h
  · exact Nat.le_of_lt (Nat.lt_succ_of_lt (digits1_length h))
  · simp [← Except.ok.inj h]

theorem exponentSign_length (cs : List Char) : (exponentSign cs).2.length ≤ cs.length := by
  unfold exponentSign
  split <;> simp

theorem exponentPart_length {cs : List Char} {found : Option Int × List Char}
    (h : exponentPart cs = .ok found) : found.2.length ≤ cs.length := by
  unfold exponentPart at h
  split at h
  · simp [← Except.ok.inj h]
  · next c rest =>
    split at h
    · cases hd : digits1 (exponentSign rest).2 with
      | error f => simp [hd, Except.map] at h
      | ok digits =>
        have hlt := digits1_length hd
        have hle := exponentSign_length rest
        simp only [hd, Except.map, Except.ok.injEq] at h
        rw [← h]
        exact Nat.le_succ_of_le (Nat.le_trans (Nat.le_of_lt hlt) hle)
    · simp [← Except.ok.inj h]

theorem scanNumber_length {negative : Bool} {cs : List Char} {found : Numeral × List Char}
    (h : scanNumber negative cs = .ok found) : found.2.length < cs.length := by
  unfold scanNumber at h
  cases hw : wholePart cs with
  | error f => simp [hw, bind, Except.bind] at h
  | ok whole =>
    cases hf : fractionPart whole.2 with
    | error f => simp [hw, hf, bind, Except.bind] at h
    | ok fraction =>
      cases he : exponentPart fraction.2 with
      | error f => simp [hw, hf, he, bind, Except.bind] at h
      | ok exponent =>
        have h₁ := wholePart_length hw
        have h₂ := fractionPart_length hf
        have h₃ := exponentPart_length he
        simp only [hw, hf, he, bind, Except.bind, pure, Except.pure, Except.ok.injEq] at h
        rw [← h]
        exact Nat.lt_of_le_of_lt (Nat.le_trans h₃ h₂) h₁

theorem scanWord_length {word cs left : List Char} (h : scanWord word cs = .ok left) :
    left.length ≤ cs.length := by
  fun_induction scanWord word cs <;> simp_all
  omega

theorem wordToken_length (word : List Char) (t : Token) (cs : List Char) :
    (wordToken word t cs).2.length ≤ cs.length := by
  unfold wordToken
  split
  · next h => exact scanWord_length h
  · simp

theorem numberToken_length (negative : Bool) (cs : List Char) :
    (numberToken negative cs).2.length ≤ cs.length - 1 := by
  unfold numberToken
  split
  · next h => exact Nat.le_sub_one_of_lt (scanNumber_length h)
  · simp

/-- A token takes at least its first character. -/
theorem scanToken_length (c : Char) (rest : List Char) :
    (scanToken c rest).2.length ≤ rest.length := by
  unfold scanToken
  split
  all_goals try exact wordToken_length _ _ _
  all_goals try exact Nat.le_refl _
  · split
    · next h => exact Nat.le_of_lt (scanString_length h)
    · simp
  · exact Nat.le_trans (numberToken_length true rest) (Nat.sub_le _ _)
  · split
    · exact numberToken_length false (c :: rest)
    · simp

/-- The tokens of a text. -/
def tokens : List Char → List Token
  | [] => []
  | c :: rest =>
    if isSpace c then tokens rest
    else (scanToken c rest).1 :: tokens (scanToken c rest).2
termination_by cs => cs.length
decreasing_by
  · simp
  · exact Nat.lt_succ_of_le (scanToken_length c rest)

end Toolpath.Json
