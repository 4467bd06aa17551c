import Toolpath.Json.Record

/-!
# Laying a text over defaults

A record in which every member has a default is read from a draft by laying the members that are
there over the defaults. The members are taken in the order of the text, so of a flaw, a misfit and
a member given twice the one that comes first is reported. Members of other names are skipped, and
an array gives the members in the order of their names.

## Sections

* what a draft is when it is not what was wanted
* members of an object, items of an array
* a whole text
-/

namespace Toolpath.Json

namespace Draft

/-! ## What does not fit -/

/-- Why a draft is not a value of another kind: a flaw of its own, or else its kind. What an array
or an object holds is not looked at. -/
def unfit : Draft → ReadError
  | .string none => .flaw .malformed
  | .number n => if n.value?.isNone then .flaw .malformed else .misfit
  | .broken b => .flaw b.full
  | _ => .misfit

/-- A number. -/
def float : Draft → Except ReadError Float
  | .number n => match n.value?.bind float? with
    | some x => .ok x
    | none => .error (.flaw .malformed)
  | d => .error d.unfit

/-! ## Members -/

/-- How one member of a record is laid over it. -/
abbrev Assign (σ : Type) := String → Draft → σ → Except ReadError σ

variable {σ : Type}

/-- Lay the fields of an object over a record, of whose names some were given before. -/
def overlayFields (names : List String) (assign : Assign σ) (given : List String) (s : σ) :
    List (Option String × Draft) → Except ReadError σ
  | [] => .ok s
  | (none, _) :: _ => .error (.flaw .malformed)
  | (some name, d) :: rest =>
    if names.contains name then
      if given.contains name then .error .misfit
      else match assign name d s with
        | .error e => .error e
        | .ok s => overlayFields names assign (name :: given) s rest
    else match d.skim with
      | some f => .error (.flaw f)
      | none => overlayFields names assign given s rest

/-- Lay the items of an array over a record, by the order of its names. -/
def overlayItems (assign : Assign σ) (s : σ) : List String → List Draft → Except ReadError σ
  | _, [] => .ok s
  | [], _ :: _ => .error (.flaw .malformed)
  | name :: names, d :: rest =>
    match assign name d s with
    | .error e => .error e
    | .ok s => overlayItems assign s names rest

/-- What was read, unless the text broke off behind it. -/
def unlessBroken (stop : Option Break) (s : σ) : Except ReadError σ :=
  match stop with
  | some b => .error (.flaw b.full)
  | none => .ok s

/-- Lay a draft over a record. -/
def overlay (names : List String) (assign : Assign σ) (s : σ) : Draft → Except ReadError σ
  | .object fields stop => (overlayFields names assign [] s fields).bind (unlessBroken stop)
  | .array items stop => (overlayItems assign s names items).bind (unlessBroken stop)
  | d => .error d.unfit

end Draft

/-! ## Texts -/

/-- Read a text that is one record. What follows it is looked at last. -/
def readOverlay {σ : Type} (overlay : Draft → Except ReadError σ) (text : String) :
    Except ReadError σ :=
  match overlay (draft text).1 with
  | .error e => .error e
  | .ok s => if (draft text).2.isEmpty then .ok s else .error (.flaw .malformed)

end Toolpath.Json
