import Errata.Command

/-!
The program: it reads files and writes the answer of the command line.
-/

namespace Errata.Program

/-- Why the system could not read a file. A path that leads through a file fails before the file is
open, and is then named in the error. -/
def failure : IO.Error → ReadFailure
  | .noFileOrDirectory .. => .notFound
  | .inappropriateType (some _) .. => .notDirectory
  | .inappropriateType none .. => .isDirectory
  | .invalidArgument _ 22 _ => .invalidInput
  | _ => .invalidName

def readFile (path : Path) : IO (Except ReadFailure Text) := do
  try return decode (← IO.FS.readBinFile (String.ofList path))
  catch e => return .error (failure e)

end Errata.Program

def main (args : List String) : IO UInt32 := do
  let outcome ← Errata.Command.run Errata.Program.readFile (args.map String.toList)
  IO.print outcome.output
  IO.eprint outcome.errors
  return outcome.code.toUInt32
