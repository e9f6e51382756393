import FirmwareDebug.Command.Outcome

/-! # The program: reads the files that a command names and writes its outcome -/

namespace FirmwareDebug

def pathFault : IO.Error → PathFault
  | .noFileOrDirectory .. => .missing
  | .inappropriateType _ 20 _ => .notFolder
  | .inappropriateType .. => .isFolder
  | .invalidArgument _ 36 _ => .tooLong
  | .permissionDenied .. => .other "Permission denied (os error 13)"
  | fault => .other (toString fault)

def readFile (path : String) : IO (Except PathFault Bytes) := do
  try
    return .ok (← IO.FS.readBinFile path).data
  catch fault => return .error (pathFault fault)

def readFiles (arguments : List String) : IO (List (String × Except PathFault Bytes)) :=
  match Arguments.parse arguments with
  | .ok command => command.files.mapM fun path => do return (path, ← readFile path)
  | .error _ => return []

end FirmwareDebug

open FirmwareDebug in
def main (arguments : List String) : IO UInt32 := do
  let known ← readFiles arguments
  let files : Files := fun path => (known.lookup path).getD (.error .missing)
  let outcome := Outcome.ofArguments (← IO.getEnv "EMDBG_LOG_FORMAT") files arguments
  IO.print outcome.output
  IO.eprint outcome.errors
  return outcome.code
