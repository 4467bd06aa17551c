import Toolpath.CommandLine

/-!
# The program

Reads the files that the arguments name, asks for the answer, and prints it.
-/

namespace Toolpath

/-- The text of a file, or why there is none. -/
def readFile (path : String) : IO (Except StoreError String) := do
  try
    let bytes ← IO.FS.readBinFile path
    match String.fromUTF8? bytes with
    | some text => return .ok text
    | none => return .error .notText
  catch
    | .noFileOrDirectory .. => return .error .missing
    | _ => return .error .isDirectory

end Toolpath

open Toolpath CommandLine in
/-- The program. -/
def main (args : List String) : IO UInt32 := do
  let paths := ((Request.ofArgs? args).map Request.paths).getD []
  let files ← paths.mapM fun path => return (path, ← readFile path)
  let source : TextSource := fun path =>
    ((files.find? (·.1 == path)).map (·.2)).getD (.error .missing)
  let answer := CommandLine.answer source args
  IO.print answer.output
  unless answer.complaint.isEmpty do IO.eprintln answer.complaint
  return answer.code.toUInt32
