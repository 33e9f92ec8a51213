import VectorFormula.CommandLine
/-!
The command line program's outer layer: it reads the file that is asked for and writes the outcome.
-/
open VectorFormula CommandLine

/-- Why the system could not read a file. A path through something that is no directory is named
when it is opened; a directory is opened, but cannot be read. -/
def fileFault : IO.Error → FileFault
  | .noFileOrDirectory .. => .missing
  | .permissionDenied .. => .denied
  | .inappropriateType (some _) .. => .notDirectory
  | .inappropriateType .. => .directory
  | .userError _ => .notText
  | error => .other (toString error)

def readSource (arguments : List String) : IO (Except FileFault String) := do
  match Arguments.ofList arguments with
  | .ok { file := true, contents := some path, .. } =>
    try return .ok (← IO.FS.readFile path)
    catch error => return .error (fileFault error)
  | _ => return .error .missing

def main (arguments : List String) : IO UInt32 := do
  let source ← readSource arguments
  let outcome := runWith (fun _ => source) arguments
  IO.print outcome.output
  IO.eprint outcome.errors
  return UInt32.ofNat outcome.exit
