/-
What a command says when it fails: a message and what led to it.
-/
import NetLower.Error.Message
import NetLower.Text.Blank

namespace NetLower

inductive Failure where
  /-- A message, and its causes from the nearest to the last. -/
  | error (message : String) (causes : List String)
  /-- The compiler broke a promise of its own. -/
  | fault (cause : Fault)
  deriving DecidableEq

namespace Failure

/-- The causes behind an error's own message. -/
def causesOf : Error → List String
  | .network (.file cause) => [cause.message]
  | _ => []

def ofError : Error → Failure
  | .fault cause => fault cause
  | e => error e.message (causesOf e)

def ofFile (e : FileError) : Failure := error e.message []

/-- What was attempted when a failure came up. -/
def within (message : String) : Failure → Failure
  | error inner causes => error message (inner :: causes)
  | fault cause => fault cause

/-- The message and its causes on one line. -/
def chain : Failure → String
  | error message causes => ": ".intercalate (message :: causes)
  | fault cause => cause.message

/-- A text with every line but the first indented. -/
def hang (indent text : String) : String :=
  ("\n" ++ indent).intercalate (Text.splitAt '\n' text)

/-- The lines of several causes, which are numbered. -/
def numbered (causes : List String) : String :=
  String.join (causes.zipIdx.map fun (cause, index) =>
    "\n" ++ Text.padLeft ' ' 5 (toString index) ++ ": " ++ hang "       " cause)

/-- The lines below the message. -/
def causeLines : List String → String
  | [] => ""
  | [cause] => "\n\nCaused by:\n    " ++ hang "    " cause
  | causes => "\n\nCaused by:" ++ numbered causes

/-- What is printed. -/
def report : Failure → String
  | error message causes => "Error: " ++ message ++ causeLines causes ++ "\n"
  | fault cause => "Fault: " ++ cause.message ++ "\n"

/-- The exit code of a program that ends with a failure. -/
def exitCode : Failure → UInt8
  | error _ _ => 1
  | fault _ => 101

end Failure

/-- The result of a command, or what it says instead. -/
abbrev Attempt := Except Failure

/-- The outcome of an operation, with what was attempted. -/
def Outcome.within (message : String) (outcome : Outcome α) : Attempt α :=
  outcome.mapError fun e => (Failure.ofError e).within message

end NetLower
