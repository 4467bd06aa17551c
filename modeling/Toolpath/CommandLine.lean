import Toolpath.Compile

/-!
# The command line

`run` compiles a job file and prints the page, `check-config` checks a settings file. Arguments are
taken one after the other: the first one that is wrong ends the reading, and so does a request for
help or for the version.

## Sections

* what can be asked for
* options and operands
* requests
* answers
-/

namespace Toolpath

namespace CommandLine

/-- The name and the version of the program. -/
def version : String := "cutkit 0.4.0"

/-- What the program is asked to do. -/
inductive Request where
  | run (c : Compilation)
  | check (path : String)
  | version
  | help
  deriving DecidableEq, Repr

/-! ## Options and operands -/

/-- The options of a command. -/
inductive Flag where
  | help
  | settings
  | decimals
  | numbered
  | stopOnError
  deriving DecidableEq, Repr

namespace Flag

/-- Options with a value behind them. -/
def takesValue : Flag → Bool
  | .settings | .decimals => true
  | _ => false

/-- The option of a long name. -/
def ofName? (name : List Char) : Option Flag :=
  match String.ofList name with
  | "help" => some .help
  | "config" => some .settings
  | "decimals" => some .decimals
  | "line-numbers" => some .numbered
  | "stop-on-error" => some .stopOnError
  | _ => none

/-- The option of a letter. -/
def ofLetter? : Char → Option Flag
  | 'h' => some .help
  | 'c' => some .settings
  | _ => none

end Flag

/-- An argument as it counts. -/
inductive Item where
  | flag (f : Flag)
  | setting (f : Flag) (value : List Char)
  | operand (text : List Char)
  | wrong
  deriving DecidableEq, Repr

/-- Cut at the first equals sign, if there is one. -/
def splitEquals (cs : List Char) : List Char × Option (List Char) :=
  match cs.dropWhile (· != '=') with
  | [] => (cs, none)
  | _ :: value => (cs.takeWhile (· != '='), some value)

/-- Without an equals sign at the beginning. -/
def dropEquals : List Char → List Char
  | '=' :: value => value
  | value => value

/-- An argument that gives an option: the item, or the option whose value is still to come. -/
def option (flag? : Option Flag) (value : Option (List Char)) : Item ⊕ Flag :=
  match flag?, value with
  | none, _ => .inl .wrong
  | some f, some value => .inl (if f.takesValue then .setting f value else .wrong)
  | some f, none => if f.takesValue then .inr f else .inl (.flag f)

/-- The option in an argument of letters. A letter that takes a value takes all that follows it. -/
def letters : List Char → Item ⊕ Flag
  | [] => .inl .wrong
  | c :: rest =>
    match Flag.ofLetter? c with
    | none => .inl .wrong
    | some f =>
      if f.takesValue then if rest.isEmpty then .inr f else .inl (.setting f (dropEquals rest))
      else .inl (.flag f)

/-- The arguments as items, in order. After two dashes all are operands; an option that waits for
its value takes no argument that looks like an option. -/
def items (known : List Flag) : Option Flag → List (List Char) → List Item
  | some _, [] => [.wrong]
  | none, [] => []
  | pending, arg :: rest =>
    let value (text : List Char) : List Item :=
      match pending with
      | some f => .setting f text :: items known none rest
      | none => .operand text :: items known none rest
    let next (step : Item ⊕ Flag) : List Item :=
      if pending.isSome then [.wrong]
      else match step with
        | .inl item => item :: items known none rest
        | .inr f => items known (some f) rest
    match arg with
    | ['-', '-'] => if pending.isSome then [.wrong] else rest.map .operand
    | '-' :: '-' :: body =>
      let (name, value) := splitEquals body
      next (option ((Flag.ofName? name).filter known.contains) value)
    | '-' :: c :: body =>
      if known.any (Flag.ofLetter? c == some ·) then next (letters (c :: body)) else [.wrong]
    | text => value text

/-! ## Requests -/

/-- What the arguments of a command have said so far. -/
structure Arguments where
  job : Option String
  settings : Option String
  decimals : Option Nat
  numbered : Bool
  stopOnError : Bool
  deriving DecidableEq, Repr

/-- A path; it cannot be empty. -/
def path? (text : List Char) : Option String :=
  if text.isEmpty then none else some (String.ofList text)

/-- A count of decimals: digits, perhaps behind a plus sign, of sixty-four bits. -/
def count? (text : List Char) : Option Nat :=
  let digits := match text with
    | '+' :: rest => rest
    | _ => text
  if digits.isEmpty || !digits.all Digits.isDigit then none
  else
    let n := Digits.value digits
    if n < UInt64.size then some n else none

/-- One more item; nothing may be given twice. -/
def Arguments.add (d : Arguments) : Item → Option Arguments
  | .operand text =>
    if d.job.isSome then none else (path? text).map fun p => { d with job := some p }
  | .setting .settings text =>
    if d.settings.isSome then none else (path? text).map fun p => { d with settings := some p }
  | .setting .decimals text =>
    if d.decimals.isSome then none else (count? text).map fun n => { d with decimals := some n }
  | .flag .numbered => if d.numbered then none else some { d with numbered := true }
  | .flag .stopOnError => if d.stopOnError then none else some { d with stopOnError := true }
  | _ => none

/-- All items, unless help is asked for before anything is wrong. -/
def Arguments.addAll (d : Arguments) : List Item → Option (Arguments ⊕ Request)
  | [] => some (.inl d)
  | .flag .help :: _ => some (.inr .help)
  | item :: rest => (d.add item).bind fun d => d.addAll rest

/-- The arguments of a command with these options. -/
def Arguments.read (known : List Flag) (args : List String) : Option (Arguments ⊕ Request) :=
  Arguments.addAll ⟨none, none, none, false, false⟩ (items known none (args.map String.toList))

/-- The compilation that was asked for. A job has to be named. -/
def Arguments.compilation? (d : Arguments) : Option Compilation :=
  d.job.map fun job =>
    ⟨job, d.settings, { decimals := d.decimals.getD 4, numbered := d.numbered }, d.stopOnError⟩

/-- What the arguments ask for; nothing if one of them is wrong. -/
def Request.ofArgs? : List String → Option Request
  | [] => none
  | "run" :: args =>
    match Arguments.read [.help, .settings, .decimals, .numbered, .stopOnError] args with
    | some (.inl d) => d.compilation?.map .run
    | some (.inr r) => some r
    | none => none
  | "check-config" :: args =>
    match Arguments.read [.help] args with
    | some (.inl d) => d.job.map .check
    | some (.inr r) => some r
    | none => none
  | "help" :: args =>
    if args = [] ∨ args ∈ [["run"], ["check-config"], ["help"]] then some .help else none
  | arg :: _ =>
    match arg.toList with
    | '-' :: 'V' :: _ => some .version
    | '-' :: 'h' :: _ => some .help
    | _ => if arg = "--version" then some .version else if arg = "--help" then some .help else none

/-- The files that a request reads. -/
def Request.paths : Request → List String
  | .run c => c.job :: c.settings.toList
  | .check path => [path]
  | _ => []

/-! ## Answers -/

/-- What the program prints, what it complains about, and its exit code. -/
structure Answer where
  code : UInt8
  output : String
  complaint : String
  deriving DecidableEq, Repr

/-- How the program is used. -/
def usageText : String :=
  "usage: run JOB [-c FILE] [--line-numbers] [--decimals N] [--stop-on-error]\n" ++
    "       check-config FILE"

namespace Answer

/-- All went well. -/
def success (output : String) : Answer := ⟨0, output, ""⟩

/-- Something went wrong. -/
def failure (output complaint : String) : Answer := ⟨1, output, complaint⟩

/-- The arguments are wrong. -/
def usage : Answer := ⟨2, "", usageText⟩

/-- The page cannot be written. -/
def unwritable (complaint : String) : Answer := ⟨101, "", complaint⟩

end Answer

/-- The answer to a request to compile. The page is printed even if commands were rejected. -/
def compile (source : TextSource) (c : Compilation) : Answer :=
  match c.compile source with
  | .error (.tooPrecise decimals) => .unwritable (CompileError.message (.tooPrecise decimals))
  | .error e => .failure "" e.message
  | .ok compiled =>
    if compiled.report.isSuccess then .success compiled.page
    else
      .failure compiled.page
        ("\n".intercalate (compiled.report.failures.toList.map Failure.message))

/-- The answer to a request to check settings. -/
def checkSettings (source : TextSource) (path : String) : Answer :=
  match Settings.load source path with
  | .ok s => .success s!"{path}: ok ({s.tool.text})\n"
  | .error e => .failure "" e.message

/-- The answer to a request. -/
def Request.answer (source : TextSource) : Request → Answer
  | .run c => compile source c
  | .check path => checkSettings source path
  | .version => .success (CommandLine.version ++ "\n")
  | .help => .success (usageText ++ "\n")

/-- The answer to arguments. -/
def answer (source : TextSource) (args : List String) : Answer :=
  match Request.ofArgs? args with
  | some r => r.answer source
  | none => .usage

end CommandLine

end Toolpath
