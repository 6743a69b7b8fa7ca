/-
Commands run one after the other in one directory.
-/
import NetLower.Cli.Arguments
import NetLower.Cli.Directory

namespace NetLower

/-- How a command ended. -/
structure Ending where
  exitCode : UInt8
  stdout : String := ""
  stderr : String := ""
  deriving DecidableEq, Repr

namespace Directory

/-- Bring an effect about. -/
def apply (d : Directory) : Effect → Attempt (Ending × Directory)
  | .print text => .ok ({ exitCode := 0, stdout := text }, d)
  | .write path contents note =>
    match d.write path contents with
    | .ok d => .ok ({ exitCode := 0, stderr := note }, d)
    | .error cause => .error (Command.writeFailure path cause)

/-- Run a command. A command that fails changes nothing. -/
def run (d : Directory) (c : Command) : Ending × Directory :=
  match (do d.apply (← c.perform (d.read c.source))) with
  | .ok ended => ended
  | .error failure => ({ exitCode := failure.exitCode, stderr := failure.report }, d)

/-- Run a command line. -/
def runArguments (d : Directory) (arguments : List String) : Ending × Directory :=
  match Command.ofArguments? arguments with
  | some c => d.run c
  | none => ({ exitCode := 2, stderr := Command.usage }, d)

end Directory

end NetLower
