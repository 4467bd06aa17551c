import Toolpath.Json.Token
import Toolpath.Number.Scaled

/-!
# Drafts: what was read of a JSON text

Reading a text gives a draft: the value as far as the text goes, with a mark where it breaks off.
Whoever wants a value of a known shape can then walk the draft in the order of the text and meet, of
two faults, the one that comes first.

The reader is a machine that takes one token at a time. It keeps the containers that are still open
on a stack and knows what has to come next, so that nesting is bounded by nothing.

## Sections

* drafts
* the machine
* numbers: whole ones of sixty-four bits, and floats
* reading a whole value: `settle` turns a draft without breaks into a value
-/

namespace Toolpath.Json

/-! ## Drafts -/

/-- A value as far as it was read. -/
inductive Draft where
  | null
  | bool (b : Bool)
  | number (n : Numeral)
  | string (s : Option String)
  /-- Items; a break where a comma or the end should stand. -/
  | array (items : List Draft) (stop : Option Break)
  /-- Fields; a break where a name, a comma or the end should stand. -/
  | object (fields : List (Option String × Draft)) (stop : Option Break)
  /-- A break where a value should stand. -/
  | broken (b : Break)

/-! ## The machine -/

/-- A container that is still open, with what it holds, last first. -/
inductive Frame where
  | array (items : List Draft)
  | object (fields : List (Option String × Draft))
  /-- An object whose last name has no value yet. -/
  | field (fields : List (Option String × Draft)) (name : Option String)

/-- What has to come next. -/
inductive Need where
  | value
  | firstItem
  | moreItems
  | firstName
  | name
  | colon
  | moreFields
  deriving DecidableEq, Repr

/-- A place in a text: the open containers, innermost first, and what has to come. -/
structure Place where
  frames : List Frame
  need : Need

/-- Either the value is complete, or the reading goes on from a place. -/
abbrev Step := Draft ⊕ Place

/-- Put a complete value into the innermost open container. -/
def place (v : Draft) : List Frame → Step
  | [] => .inl v
  | .array items :: outer => .inr ⟨.array (v :: items) :: outer, .moreItems⟩
  | .field fields name :: outer => .inr ⟨.object ((name, v) :: fields) :: outer, .moreFields⟩
  | .object fields :: outer => .inr ⟨.object fields :: outer, .moreFields⟩

/-- The whole draft, when the text breaks off with these containers open. The innermost one takes
the break, as an item or field of its own if a value was due. -/
def breakOff (b : Break) (need : Need) (frames : List Frame) : Draft :=
  let rec close (v : Draft) : List Frame → Draft
    | [] => v
    | .array items :: outer => close (.array ((v :: items).reverse) none) outer
    | .field fields name :: outer => close (.object (((name, v) :: fields).reverse) none) outer
    | .object fields :: outer => close (.object fields.reverse none) outer
  match need, frames with
  | .moreItems, .array items :: outer => close (.array items.reverse (some b)) outer
  | .firstName, .object fields :: outer => close (.object fields.reverse (some b)) outer
  | .name, .object fields :: outer => close (.object fields.reverse (some b)) outer
  | .moreFields, .object fields :: outer => close (.object fields.reverse (some b)) outer
  | _, frames => close (.broken b) frames

/-- A token where a value is due. -/
def takeValue (t : Token) (frames : List Frame) : Except Break Step :=
  match t with
  | .null => .ok (place .null frames)
  | .bool b => .ok (place (.bool b) frames)
  | .number n => .ok (place (.number n) frames)
  | .string s => .ok (place (.string s) frames)
  | .openArray => .ok (.inr ⟨.array [] :: frames, .firstItem⟩)
  | .openObject => .ok (.inr ⟨.object [] :: frames, .firstName⟩)
  | .brokenString b => .error b
  | .broken b => .error b
  | _ => .error (.of .malformed)

/-- A token where a field's name is due. -/
def takeName (t : Token) (fields : List (Option String × Draft)) (outer : List Frame) :
    Except Break Step :=
  match t with
  | .string s => .ok (.inr ⟨.field fields s :: outer, .colon⟩)
  | .brokenString b => .error b
  | _ => .error (.of .malformed)

/-- One token further. -/
def step (t : Token) (p : Place) : Except Break Step :=
  match p.need, p.frames, t with
  | .value, frames, t => takeValue t frames
  | .firstItem, .array items :: outer, .closeArray =>
    .ok (place (.array items.reverse none) outer)
  | .firstItem, frames, t => takeValue t frames
  | .moreItems, .array items :: outer, .closeArray =>
    .ok (place (.array items.reverse none) outer)
  | .moreItems, frames, .comma => .ok (.inr ⟨frames, .value⟩)
  | .firstName, .object fields :: outer, .closeObject =>
    .ok (place (.object fields.reverse none) outer)
  | .firstName, .object fields :: outer, t => takeName t fields outer
  | .name, .object fields :: outer, t => takeName t fields outer
  | .colon, frames, .colon => .ok (.inr ⟨frames, .value⟩)
  | .moreFields, .object fields :: outer, .closeObject =>
    .ok (place (.object fields.reverse none) outer)
  | .moreFields, frames, .comma => .ok (.inr ⟨frames, .name⟩)
  | _, _, _ => .error (.of .malformed)

/-- Read one value from a place on; also what follows it. -/
def run (p : Place) : List Token → Draft × List Token
  | [] => (breakOff (.of .truncated) p.need p.frames, [])
  | t :: rest =>
    match step t p with
    | .error b => (breakOff b p.need p.frames, [])
    | .ok (.inl v) => (v, rest)
    | .ok (.inr p') => run p' rest

/-- Read one value at the beginning of a text; also the tokens that follow it. -/
def draft (text : String) : Draft × List Token := run ⟨[], .value⟩ (tokens text.toList)

/-! ## Numbers -/

namespace Numeral

/-- The float of a number, by scaling its leading digits; none beyond the greatest float. -/
def float? (n : Numeral) : Option Float :=
  (Scaled.ofParts n.whole n.fraction (n.exponent.getD 0)).toFloat?.map fun x =>
    if n.negative then -x else x

/-- A number written without fraction and exponent, if it is of sixty-four bits. Zero with a sign
is none, since a whole number has no such zero. -/
def integer? (n : Numeral) : Option Int :=
  let m := Digits.value n.whole
  if !n.fraction.isEmpty || n.exponent.isSome then none
  else if n.negative then if m != 0 && 2 * m ≤ UInt64.size then some (-m) else none
  else if m < UInt64.size then some m
  else none

/-- The value of a number: a whole number of sixty-four bits, else a float. -/
def value? (n : Numeral) : Option Json :=
  match n.integer? with
  | some m => some (.integer m)
  | none => n.float?.map .real

end Numeral

/-! ## Reading a whole value -/

/-- Containers may be nested this deep. -/
def maxDepth : Nat := 127

namespace Draft

mutual

/-- The value of a draft that is free of flaws, or its first flaw, with `room` levels of nesting
left. -/
def settle (room : Nat) : Draft → Except Flaw Json
  | .null => .ok .null
  | .bool b => .ok (.bool b)
  | .number n => match n.value? with
    | some v => .ok v
    | none => .error .malformed
  | .string (some s) => .ok (.string s)
  | .string none => .error .malformed
  | .array items stop =>
    if room = 0 then .error .malformed
    else match settleItems (room - 1) items, stop with
      | .error f, _ => .error f
      | .ok _, some b => .error b.full
      | .ok vs, none => .ok (.array vs)
  | .object fields stop =>
    if room = 0 then .error .malformed
    else match settleFields (room - 1) fields, stop with
      | .error f, _ => .error f
      | .ok _, some b => .error b.full
      | .ok vs, none => .ok (.object vs)
  | .broken b => .error b.full

/-- The values of items, or the first flaw among them. -/
def settleItems (room : Nat) : List Draft → Except Flaw (List Json)
  | [] => .ok []
  | d :: rest =>
    match settle room d with
    | .error f => .error f
    | .ok v => match settleItems room rest with
      | .error f => .error f
      | .ok vs => .ok (v :: vs)

/-- The values of fields, or the first flaw among them. -/
def settleFields (room : Nat) : List (Option String × Draft) → Except Flaw (List (String × Json))
  | [] => .ok []
  | (none, _) :: _ => .error .malformed
  | (some name, d) :: rest =>
    match settle room d with
    | .error f => .error f
    | .ok v => match settleFields room rest with
      | .error f => .error f
      | .ok vs => .ok ((name, v) :: vs)

end

mutual

/-- The first flaw that shows when a draft is skipped and not read. -/
def skim : Draft → Option Flaw
  | .array items stop => (skimItems items).or (stop.map Break.skimmed)
  | .object fields stop => (skimFields fields).or (stop.map Break.skimmed)
  | .broken b => some b.skimmed
  | _ => none

/-- The first flaw that shows when items are skipped. -/
def skimItems : List Draft → Option Flaw
  | [] => none
  | d :: rest => (skim d).or (skimItems rest)

/-- The first flaw that shows when fields are skipped. -/
def skimFields : List (Option String × Draft) → Option Flaw
  | [] => none
  | (_, d) :: rest => (skim d).or (skimFields rest)

end

end Draft

/-- Why a text could not be read as a value of the shape that was wanted. -/
inductive ReadError where
  | flaw (f : Flaw)
  /-- JSON, but of another shape. -/
  | misfit
  deriving DecidableEq, Repr

/-- Read a text that is one value, whatever its shape. -/
def read (text : String) : Except Flaw Json :=
  match (draft text).1.settle maxDepth with
  | .error f => .error f
  | .ok v => if (draft text).2.isEmpty then .ok v else .error .malformed

/-- Read a text that is one value of a known shape. What follows the value is looked at last. -/
def readAs {β : Type} (fits : Json → Option β) (text : String) : Except ReadError β :=
  match (draft text).1.settle maxDepth with
  | .error f => .error (.flaw f)
  | .ok v => match fits v with
    | none => .error .misfit
    | some b => if (draft text).2.isEmpty then .ok b else .error (.flaw .malformed)

end Toolpath.Json
