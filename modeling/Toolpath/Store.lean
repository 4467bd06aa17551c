/-!
# Stores

Files and directories by path. A path is a list of steps with slashes between them: names, `.` for
where one is, `..` for the directory above. What stands between two slashes that follow each other
is no step. A directory is there if it was made or if something stands in it; so are the directories
above the store, of which nothing else is known.

## Sections

* places, and the paths that lead to them
* what stands where
* reading and writing
-/

namespace Toolpath

/-! ## Places and paths -/

/-- A place, by the steps that lead there from the directory of the store. The first of them may
lead out of it: `/` to the root of all directories, or `..` as often as need be. -/
abbrev Place := List String

namespace Place

/-- The directory above a place; above the root there is only the root. -/
def above (place : Place) : Place :=
  match place.getLast? with
  | none => [".."]
  | some last =>
    if last = "/" then place
    else if last = ".." then place ++ [".."]
    else place.dropLast

/-- The place that a step leads to. -/
def enter (place : Place) (step : String) : Place :=
  if step = "." then place else if step = ".." then place.above else place ++ [step]

/-- The place is the directory of the store or one above it. -/
def isAround (place : Place) : Bool := place.all fun step => step == "/" || step == ".."

end Place

namespace Path

/-- The parts between slashes. -/
def splitAtSlashes : List Char → List (List Char)
  | [] => [[]]
  | c :: rest =>
    match splitAtSlashes rest with
    | [] => [[c]]
    | part :: parts => if c = '/' then [] :: part :: parts else (c :: part) :: parts

/-- The steps of a path. -/
def steps (path : String) : List String :=
  ((splitAtSlashes path.toList).filter fun part => !part.isEmpty).map String.ofList

/-- Where a path begins: at the root if it begins with a slash, else in the store. -/
def start (path : String) : Place := if path.toList.head? == some '/' then ["/"] else []

/-- The place that a path means, whatever stands there. -/
def place (path : String) : Place := (steps path).foldl Place.enter (start path)

/-- The path ends in a slash, and so can only mean a directory. -/
def namesDirectory (path : String) : Bool := path.toList.getLast? == some '/'

/-- The name of what a path leads to. -/
def name? (path : String) : Option String :=
  match ((steps path).filter (· != ".")).getLast? with
  | some ".." => none
  | last => last

/-- What follows the last dot of the name, unless the name begins with that dot. -/
def extension? (path : String) : Option String := do
  let reversed := (← name? path).toList.reverse
  match reversed.dropWhile (· != '.') with
  | [] | [_] => none
  | _ => some (String.ofList (reversed.takeWhile (· != '.')).reverse)

/-- A path has fewer bytes than this. -/
def maxBytes : Nat := 4096

/-- A name has at most this many bytes. -/
def maxNameBytes : Nat := 255

end Path

/-! ## Stores -/

/-- What a store has in one place. -/
inductive Store.Entry where
  | file (bytes : ByteArray)
  | directory

/-- Files and directories by place. -/
structure Store where
  entries : List (Place × Store.Entry)

/-- Why a store cannot be read or written. -/
inductive StoreError where
  | missing
  | notDirectory
  | isDirectory
  | tooLong
  /-- A path holds the character that ends paths. -/
  | zeroInPath
  | notText
  deriving DecidableEq, Repr

/-- The text of an error. -/
def StoreError.message : StoreError → String
  | .missing => "No such file or directory (os error 2)"
  | .notDirectory => "Not a directory (os error 20)"
  | .isDirectory => "Is a directory (os error 21)"
  | .tooLong => "File name too long (os error 36)"
  | .zeroInPath => "file name contained an unexpected NUL byte"
  | .notText => "stream did not contain valid UTF-8"

/-- Where texts are read from: for every path its text, or why there is none. -/
abbrev TextSource := String → Except StoreError String

namespace Store

/-- What stands in a place. -/
def get? (s : Store) (place : Place) : Option Entry :=
  match s.entries.find? (·.1 == place) with
  | some (_, entry) => some entry
  | none =>
    if place.isAround || s.entries.any fun e => place.isPrefixOf e.1 then some .directory else none

/-- Follow steps from a place. A step can be taken in a directory only. -/
def follow (s : Store) (place : Place) : List String → Except StoreError Place
  | [] => .ok place
  | step :: rest =>
    match s.get? place with
    | none => .error .missing
    | some (.file _) => .error .notDirectory
    | some .directory =>
      if Path.maxNameBytes < step.utf8ByteSize then .error .tooLong
      else follow s (place.enter step) rest

/-- The place that a path leads to, whatever stands there. -/
def locate (s : Store) (path : String) : Except StoreError Place :=
  if path.toList.any fun c => c.toNat == 0 then .error .zeroInPath
  else if path.isEmpty then .error .missing
  else if Path.maxBytes ≤ path.utf8ByteSize then .error .tooLong
  else s.follow (Path.start path) (Path.steps path)

/-! ## Reading and writing -/

/-- The bytes of a file. -/
def read (s : Store) (path : String) : Except StoreError ByteArray :=
  match s.locate path with
  | .error e => .error e
  | .ok place =>
    match s.get? place with
    | none => .error .missing
    | some .directory => .error .isDirectory
    | some (.file bytes) =>
      if Path.namesDirectory path then .error .notDirectory else .ok bytes

/-- The text of a file. -/
def readText (s : Store) : TextSource := fun path =>
  match s.read path with
  | .error e => .error e
  | .ok bytes =>
    match String.fromUTF8? bytes with
    | some text => .ok text
    | none => .error .notText

/-- The store with other contents in one place. -/
def put (s : Store) (place : Place) (entry : Entry) : Store :=
  ⟨(place, entry) :: s.entries.filter (·.1 != place)⟩

/-- Write a file, in the place of the one that was there. -/
def write (s : Store) (path : String) (bytes : ByteArray) : Except StoreError Store :=
  match s.locate path with
  | .error e => .error e
  | .ok place =>
    match s.get? place, Path.namesDirectory path with
    | some .directory, _ => .error .isDirectory
    | _, true => .error .isDirectory
    | _, false => .ok (s.put place (.file bytes))

/-- Write a text as a file. -/
def writeText (s : Store) (path : String) (text : String) : Except StoreError Store :=
  s.write path text.toUTF8

end Store

end Toolpath
