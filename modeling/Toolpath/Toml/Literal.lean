import Toolpath.Number.Decimal
import Toolpath.Toml.Value

/-!
# TOML literals

Strings, numbers, dates and times as they stand in a TOML text. Each reader takes the text from
where the literal begins, and gives the value and what follows it; it gives none if no such literal
stands there.

## Sections

* characters, blanks and ends of lines
* strings on one line
* strings over several lines
* numbers
* dates and times
-/

namespace Toolpath.Toml

/-- A value and what follows it in the text, if the value stands there. -/
abbrev Reading (β : Type) := Option (β × List Char)

/-! ## Characters, blanks and ends of lines -/

/-- A blank within a line. -/
def isBlank (c : Char) : Bool := c == ' ' || c == '\t'

/-- The text behind blanks. -/
def skipBlanks (cs : List Char) : List Char := cs.dropWhile isBlank

/-- A character that may stand in a comment or a string. -/
def isPlain (c : Char) : Bool := c == '\t' || (32 ≤ c.toNat && c.toNat != 127)

/-- What follows the end of a line. -/
def newline? : List Char → Option (List Char)
  | '\n' :: rest => some rest
  | '\r' :: '\n' :: rest => some rest
  | _ => none

/-- What follows the end of a line, behind blanks and a comment; the text may end there. -/
def lineEnd? (cs : List Char) : Option (List Char) :=
  let rest := match skipBlanks cs with
    | '#' :: comment => comment.dropWhile isPlain
    | rest => rest
  if rest.isEmpty then some [] else newline? rest

/-! ## Strings on one line -/

/-- The number that digits in a base denote, if they are such digits. -/
def digitsIn? (base : Nat) (cs : List Char) : Option Nat :=
  cs.foldlM (fun n c => do
    let d ←
      if Digits.isDigit c then some (Digits.digit c)
      else if 'a' ≤ c ∧ c ≤ 'f' then some (c.toNat - 87)
      else if 'A' ≤ c ∧ c ≤ 'F' then some (c.toNat - 55)
      else none
    if d < base then some (n * base + d) else none) 0

/-- The character with a code point of a given number of digits in base sixteen. -/
def codePoint? (width : Nat) (cs : List Char) : Option Char :=
  if cs.length = width then
    (digitsIn? 16 cs).bind fun n => if n.isValidChar then some (Char.ofNat n) else none
  else none

/-- The character of a short escape. -/
def shortEscape? : Char → Option Char
  | 'b' => some (Char.ofNat 8)
  | 't' => some '\t'
  | 'n' => some '\n'
  | 'f' => some (Char.ofNat 12)
  | 'r' => some '\r'
  | '"' => some '"'
  | '\\' => some '\\'
  | _ => none

/-- An escape, from behind its backslash. -/
def escape? : List Char → Reading Char
  | 'u' :: rest => (codePoint? 4 (rest.take 4)).map fun c => (c, rest.drop 4)
  | 'U' :: rest => (codePoint? 8 (rest.take 8)).map fun c => (c, rest.drop 8)
  | c :: rest => (shortEscape? c).map fun c => (c, rest)
  | [] => none

/-- A string in double quotes, from behind the first. -/
def basicString (seen : List Char) : List Char → Reading String
  | [] => none
  | '"' :: rest => some (String.ofList seen.reverse, rest)
  | '\\' :: rest =>
    match escape? rest with
    | some (c, left) =>
      if left.length < rest.length then basicString (c :: seen) left else none
    | none => none
  | c :: rest => if isPlain c then basicString (c :: seen) rest else none
termination_by cs => cs.length
decreasing_by all_goals (simp only [List.length_cons]; omega)

/-- A string in single quotes, from behind the first. -/
def literalString (seen : List Char) : List Char → Reading String
  | [] => none
  | '\'' :: rest => some (String.ofList seen.reverse, rest)
  | c :: rest => if isPlain c then literalString (c :: seen) rest else none

/-! ## Strings over several lines -/

/-- A run of quotes inside a long string: how many of them belong to the string, and whether three
more close it. Up to five stand in a row. -/
def quoteRun (quote : Char) (cs : List Char) : Nat × Bool × List Char :=
  let n := min 5 (cs.takeWhile (· == quote)).length
  if 3 ≤ n then (n - 3, true, cs.drop n) else (n, false, cs.drop n)

/-- Blanks and ends of lines. -/
def skipLines (cs : List Char) : List Char :=
  match cs with
  | [] => []
  | '\n' :: rest => skipLines rest
  | '\r' :: '\n' :: rest => skipLines rest
  | c :: rest => if isBlank c then skipLines rest else c :: rest

/-- What a backslash at the end of a line skips: that end and all blank space after it. -/
def continuation? (cs : List Char) : Option (List Char) :=
  (newline? (skipBlanks cs)).map skipLines

/-- A long string, from behind the quotes that open it. -/
def longString (quote : Char) (escapes : Bool) (seen : List Char) (cs : List Char) :
    Reading String :=
  match cs with
  | [] => none
  | c :: rest =>
    if c == quote then
      let (inside, closed, left) := quoteRun quote (c :: rest)
      let seen := List.replicate inside quote ++ seen
      if closed then some (String.ofList seen.reverse, left)
      else if left.length < (c :: rest).length then longString quote escapes seen left else none
    else if escapes && c == '\\' then
      match continuation? rest with
      | some left =>
        if left.length < (c :: rest).length then longString quote escapes seen left else none
      | none => match escape? rest with
        | some (e, left) =>
          if left.length < (c :: rest).length then longString quote escapes (e :: seen) left
          else none
        | none => none
    else if isPlain c then longString quote escapes (c :: seen) rest
    else match newline? (c :: rest) with
      | some left =>
        if left.length < (c :: rest).length then longString quote escapes ('\n' :: seen) left
        else none
      | none => none
termination_by cs.length
decreasing_by all_goals (simp_all only [List.length_cons]; try omega)

/-- The text behind the first end of line of a long string. -/
def afterOpening (cs : List Char) : List Char := (newline? cs).getD cs

/-- A string of any of the four kinds. -/
def string? : List Char → Reading String
  | '"' :: '"' :: '"' :: rest => longString '"' true [] (afterOpening rest)
  | '"' :: rest => basicString [] rest
  | '\'' :: '\'' :: '\'' :: rest => longString '\'' false [] (afterOpening rest)
  | '\'' :: rest => literalString [] rest
  | _ => none

/-! ## Numbers -/

/-- Digits with single underscores between them, the first one given; and what follows. -/
def moreDigits (isDigit : Char → Bool) : List Char → Reading (List Char)
  | '_' :: c :: rest =>
    if isDigit c then (moreDigits isDigit rest).map fun (ds, rest) => (c :: ds, rest) else none
  | '_' :: [] => none
  | c :: rest =>
    if isDigit c then (moreDigits isDigit rest).map fun (ds, rest) => (c :: ds, rest)
    else some ([], c :: rest)
  | [] => some ([], [])

/-- Digits with single underscores between them. -/
def digits? (isDigit : Char → Bool) : List Char → Reading (List Char)
  | c :: rest =>
    if isDigit c then (moreDigits isDigit rest).map fun (ds, rest) => (c :: ds, rest) else none
  | [] => none

/-- The whole part of a decimal number: a zero alone, or digits that do not begin with one. -/
def whole? : List Char → Reading (List Char)
  | '0' :: rest => some (['0'], rest)
  | cs => digits? Digits.isDigit cs

/-- The fraction of a number, if a point follows. -/
def fraction? : List Char → Reading (List Char)
  | '.' :: rest => digits? Digits.isDigit rest
  | rest => some ([], rest)

/-- The exponent of a number, if the letter for it follows. -/
def exponent? : List Char → Reading (Option Int)
  | [] => some (none, [])
  | c :: rest =>
    if c = 'e' ∨ c = 'E' then
      let (negative, rest) := Decimal.splitSign rest
      (digits? Digits.isDigit rest).map fun (ds, rest) =>
        (some (if negative then -(Digits.value ds : Int) else Digits.value ds), rest)
    else some (none, c :: rest)

/-- A whole number of sixty-four bits. -/
def integerOf? (n : Int) : Option Toml :=
  if Int64.minValue.toInt ≤ n ∧ n ≤ Int64.maxValue.toInt then some (.integer n) else none

/-- A float from a decimal; a positive one must not be beyond all floats. -/
def realOf? (d : Decimal) : Option Toml :=
  let x := d.toFloat
  if x.isInf && !d.negative then none else some (.real x)

/-- A whole number in another base, from behind the letter for it. -/
def integerIn? (base : Nat) (cs : List Char) : Option (Toml × List Char) := do
  let (ds, rest) ← digits? (fun c => (digitsIn? base [c]).isSome) cs
  let n ← digitsIn? base ds
  return (← integerOf? n, rest)

/-- A number in base ten. -/
def decimal? (cs : List Char) : Option (Toml × List Char) := do
  let (negative, body) := Decimal.splitSign cs
  match body with
  | 'i' :: 'n' :: 'f' :: rest => return (.real (if negative then -1.0 / 0.0 else 1.0 / 0.0), rest)
  | 'n' :: 'a' :: 'n' :: rest => return (.real (0.0 / 0.0), rest)
  | body =>
    let (whole, rest) ← whole? body
    let (fraction, rest) ← fraction? rest
    let (exponent, rest) ← exponent? rest
    if fraction.isEmpty && exponent.isNone then
      let n : Int := Digits.value whole
      return (← integerOf? (if negative then -n else n), rest)
    else
      return (← realOf? (Decimal.ofParts negative whole fraction (exponent.getD 0)), rest)

/-- A number. -/
def number? : List Char → Reading Toml
  | '0' :: 'x' :: rest => integerIn? 16 rest
  | '0' :: 'o' :: rest => integerIn? 8 rest
  | '0' :: 'b' :: rest => integerIn? 2 rest
  | cs => decimal? cs

/-! ## Dates and times -/

/-- A number of exactly so many digits, within bounds. -/
def field? (width least greatest : Nat) (cs : List Char) : Reading Nat :=
  let ds := cs.take width
  let n := Digits.value ds
  if ds.length = width ∧ ds.all Digits.isDigit ∧ least ≤ n ∧ n ≤ greatest then
    some (n, cs.drop width)
  else none

/-- A character that has to stand there. -/
def mark? (c : Char) : List Char → Option (List Char)
  | d :: rest => if d = c then some rest else none
  | [] => none

/-- The number of days in a month. -/
def daysIn (year month : Nat) : Nat :=
  if month = 2 then
    if year % 4 = 0 ∧ (year % 100 ≠ 0 ∨ year % 400 = 0) then 29 else 28
  else if month = 4 ∨ month = 6 ∨ month = 9 ∨ month = 11 then 30
  else 31

/-- What follows a date. -/
def date? (cs : List Char) : Option (List Char) := do
  let (year, rest) ← field? 4 0 9999 cs
  let rest ← mark? '-' rest
  let (month, rest) ← field? 2 1 12 rest
  let rest ← mark? '-' rest
  let (_, rest) ← field? 2 1 (daysIn year month) rest
  return rest

/-- What follows the fraction of a second, if there is one. -/
def afterFraction (cs : List Char) : Option (List Char) :=
  match cs with
  | '.' :: rest =>
    let left := rest.dropWhile Digits.isDigit
    if left.length < rest.length then some left else none
  | rest => some rest

/-- What follows a time of day. -/
def time? (cs : List Char) : Option (List Char) := do
  let (_, rest) ← field? 2 0 23 cs
  let rest ← mark? ':' rest
  let (_, rest) ← field? 2 0 59 rest
  let rest ← mark? ':' rest
  let (_, rest) ← field? 2 0 60 rest
  afterFraction rest

/-- What follows the offset of a time from the zero meridian, if there is one. -/
def afterOffset (cs : List Char) : Option (List Char) :=
  match cs with
  | 'Z' :: rest | 'z' :: rest => some rest
  | '+' :: rest | '-' :: rest => do
    let (_, rest) ← field? 2 0 23 rest
    let rest ← mark? ':' rest
    let (_, rest) ← field? 2 0 59 rest
    return rest
  | rest => some rest

/-- What follows a date, with a time behind it if one stands there. -/
def dateAndTime? (cs : List Char) : Option (List Char) := do
  let rest ← date? cs
  match rest with
  | c :: clock =>
    if c = 'T' ∨ c = 't' ∨ c = ' ' then
      match time? clock with
      | some rest => afterOffset rest
      | none => some (c :: clock)
    else some (c :: clock)
  | [] => some []

/-- A date, a time or both. -/
def moment? (cs : List Char) : Reading Toml :=
  ((dateAndTime? cs).or (time? cs)).map fun rest =>
    (.moment (String.ofList (cs.take (cs.length - rest.length))), rest)

end Toolpath.Toml
