import Toolpath.Move
import Toolpath.Rejection
import Toolpath.Text.Blank

/-!
# Motion lines

One line of motion text, such as `G1X1.5Y2F60`, read as a move. A line is a sequence of words, each
a letter and the run of digits, points and signs behind it; blanks between words do not matter, case
does not matter, and a comment from `;` or `(` on is left out. The first word selects the kind of
move, each later word sets one of the move's values.

## Sections

* words: what a line consists of
* moves: what the words mean
* the wording of errors
-/

namespace Toolpath

/-- What is wrong with a motion line. -/
inductive LineError where
  | empty
  | unexpected (c : Char)
  | malformedNumber (letter : Char) (numeral : List Char)
  | notMotion
  | unsupported (letter : Char)
  deriving DecidableEq, Repr

/-- A letter with its value. -/
structure Word (α : Type) where
  letter : Char
  value : α
  deriving DecidableEq, Repr

namespace Line

/-! ## Words -/

/-- Comments begin here. -/
def startsComment (c : Char) : Bool := c == ';' || c == '('

/-- What a numeral may hold. -/
def inNumeral (c : Char) : Bool := Digits.isDigit c || c == '.' || c == '-' || c == '+'

/-- The text of a line that counts: no comment, no blanks at the ends, capital letters. -/
def code (line : List Char) : List Char :=
  (Text.trim (line.takeWhile fun c => !startsComment c)).map Char.toUpper

/-- The words of a line, or the first thing that is none. -/
def words {α : Type} [OfDecimal α] : List Char → Except LineError (List (Word α))
  | [] => .ok []
  | c :: rest =>
    if Text.isBlank c then words rest
    else if !c.isAlpha then .error (.unexpected c)
    else
      match Decimal.ofNumeral? (rest.takeWhile inNumeral) with
      | none => .error (.malformedNumber c (rest.takeWhile inNumeral))
      | some d =>
        (words (rest.dropWhile inNumeral)).map fun ws => ⟨c, OfDecimal.ofDecimal d⟩ :: ws
termination_by cs => cs.length
decreasing_by
  · simp
  · have := (List.dropWhile_suffix inNumeral (l := rest)).length_le
    simp only [List.length_cons]
    omega

/-! ## Moves -/

variable {α : Type} [OfDecimal α] [BEq α]

/-- The kind of move that the value behind the letter G selects. -/
def kind? (value : α) : Option MoveKind :=
  [MoveKind.rapid, .linear, .arcClockwise, .arcCounterclockwise].find? fun k =>
    value == OfDecimal.ofDecimal ⟨false, k.code, 0⟩

/-- The kind of move that a first word selects. -/
def selects? (w : Word α) : Option MoveKind := if w.letter = 'G' then kind? w.value else none

omit [OfDecimal α] [BEq α] in
/-- A move with the value of one more word; a word that comes again counts the last time. -/
def setWord (d : Move α) (w : Word α) : Except LineError (Move α) :=
  match w.letter with
  | 'X' => .ok { d with x := some w.value }
  | 'Y' => .ok { d with y := some w.value }
  | 'Z' => .ok { d with z := some w.value }
  | 'I' => .ok { d with i := some w.value }
  | 'J' => .ok { d with j := some w.value }
  | 'F' => .ok { d with feed := some w.value }
  | letter => .error (.unsupported letter)

/-- The move that a sequence of words means. -/
def move : List (Word α) → Except LineError (Move α)
  | [] => .error .notMotion
  | first :: rest =>
    match selects? first with
    | some kind => rest.foldlM setWord { kind := kind }
    | none => .error .notMotion

/-- Read one motion line. -/
def read (line : String) : Except LineError (Move α) :=
  if (code line.toList).isEmpty then .error .empty else (words (code line.toList)).bind move

end Line

/-! ## Wording -/

namespace LineError

/-- What the error is about: a letter, a character or the line. -/
def parameter : LineError → String
  | .empty => "line"
  | .unexpected c | .malformedNumber c _ | .unsupported c => c.toString
  | .notMotion => "G"

/-- What is wrong with a line. -/
def reason (line : String) : LineError → String
  | .empty => "empty motion line"
  | .unexpected _ => s!"unexpected character in '{trimmed line}'"
  | .malformedNumber _ numeral => s!"malformed number '{String.ofList numeral}'"
  | .notMotion => s!"'{trimmed line}' is not a G0-G3 motion line"
  | .unsupported _ => "unsupported word in motion line"
where
  trimmed (line : String) : String := String.ofList (Text.trim line.toList)

/-- The text of an error in a line. -/
def message (line : String) (e : LineError) : String :=
  parameterMessage e.parameter "line" (e.reason line)

end LineError

end Toolpath
