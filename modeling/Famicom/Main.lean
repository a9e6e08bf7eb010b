import Famicom.CommandLine

/-!
The program: reads the files that the arguments name, carries the plan out and prints.
-/

namespace Famicom

/-- An error of the file system. -/
def diskError : IO.Error → DiskError
  | .noFileOrDirectory .. => .notFound
  | .inappropriateType _ 20 _ => .notADirectory
  | .inappropriateType _ 21 _ => .isADirectory
  | .invalidArgument _ 36 _ => .nameTooLong
  | .resourceExhausted _ 28 _ => .noSpace
  | .permissionDenied _ code details => .other s!"{details} (os error {code})"
  | e => .other (toString e)

/-- Reads a file. -/
def readFile (path : String) : IO (Except DiskError (List UInt8)) := do
  try
    let file ← IO.FS.Handle.mk path .read
    let bytes ← file.readBinToEnd
    return .ok bytes.toList
  catch e => return .error (diskError e)

/-- Reads the files that the arguments name. -/
def readAll (arguments : List String) : IO Reader := do
  match CommandLine.Options.parse {} arguments with
  | .run o =>
    let files ← o.paths.mapM fun path => return (path, ← readFile path)
    return fun path => (files.lookup path).getD (.error .notFound)
  | _ => return fun _ => .error .notFound

/-- Writes a file. -/
def writeFile (path : String) (content : List UInt8) : IO Unit := do
  let file ← IO.FS.Handle.mk path .write
  file.write ⟨content.toArray⟩
  file.flush

/-- Writes the files of a plan; the outcome of the run. -/
def writeAll (done : CommandLine.Outcome) : List CommandLine.Write → IO CommandLine.Outcome
  | [] => return done
  | w :: rest => do
    try
      writeFile w.path w.content
    catch e => return CommandLine.writeFailed w (diskError e)
    writeAll done rest

end Famicom

/-- Runs the command line. -/
def main (arguments : List String) : IO UInt32 := do
  let read ← Famicom.readAll arguments
  let plan := Famicom.CommandLine.plan read arguments
  let outcome ← Famicom.writeAll plan.outcome plan.writes
  IO.print outcome.output
  IO.eprint outcome.errors
  return outcome.code
