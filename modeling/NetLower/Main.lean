/-
The program: reads the file of a command, performs the command and brings its
effect about.
-/
import NetLower.Cli.Arguments

namespace NetLower

/-- The number of a system error. Some calls give it with the other sign. -/
def errorNumber (code : UInt32) : UInt32 := min code (0 - code)

/-- Why a file could not be read or written. -/
def FileError.ofSystem : IO.Error → FileError
  | .noFileOrDirectory .. => .notFound
  | .permissionDenied .. => .permissionDenied
  | .inappropriateType _ code _ => if errorNumber code = 20 then .notDirectory else .isDirectory
  | .invalidArgument file code details =>
    if errorNumber code = 36 then .nameTooLong
    else .other (toString (IO.Error.invalidArgument file code details))
  | e => .other (toString e)

/-- The contents of a file. -/
def readContents (path : String) : IO (Except FileError Bytes) := do
  try
    return .ok (← IO.FS.readBinFile path).data
  catch e => return .error (.ofSystem e)

/-- Say what went wrong and give the exit code. -/
def endWith (failure : Failure) : IO UInt32 := do
  IO.eprint failure.report
  return failure.exitCode.toUInt32

/-- Bring an effect about and give the exit code. -/
def bringAbout : Effect → IO UInt32
  | .print text => do
    IO.print text
    return 0
  | .write path contents note => do
    try
      IO.FS.writeBinFile path ⟨contents⟩
      IO.eprint note
      return 0
    catch e => endWith (Command.writeFailure path (.ofSystem e))

end NetLower

open NetLower in
def main (arguments : List String) : IO UInt32 := do
  match Command.ofArguments? arguments with
  | none =>
    IO.eprint Command.usage
    return 2
  | some command =>
    match command.perform (← readContents command.source) with
    | .ok effect => bringAbout effect
    | .error failure => endWith failure
