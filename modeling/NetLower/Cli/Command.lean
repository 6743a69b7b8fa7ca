/-
The commands: compile a network into a blob, and inspect a blob.  Each reads one
file; what it does then depends on nothing else, so a command is a function from
the contents of that file to what is printed and written.
-/
import NetLower.Blob.Describe
import NetLower.Cli.Failure
import NetLower.Cli.Path
import NetLower.Compile
import NetLower.Network.Decode

namespace NetLower

namespace Config

/-- Options with one more; the last value of a key counts. -/
def insertOption (key value : String) (options : List (String × String)) :
    List (String × String) :=
  options.filter (fun o => o.1 != key) ++ [(key, value)]

/-- An option written with an equals sign. Blanks around key and value do not count. -/
def splitOption (option : String) : Attempt (String × String) :=
  match option.toList.span (· != '=') with
  | (key, _ :: value) => .ok (Text.trim (String.ofList key), Text.trim (String.ofList value))
  | (_, []) => .error (.error s!"Option '{option}' is not KEY=VALUE" [])

/-- The configuration that options of a command line ask for. `noHw` turns the hardware off,
whatever they say. -/
def ofArguments (options : List String) (noHw : Bool) : Attempt Config := do
  let pairs ← options.foldlM (fun pairs option => do
    let (key, value) ← splitOption option
    return insertOption key value pairs) []
  let pairs := if noHw then insertOption hwStagesKey "NO" pairs else pairs
  (ofOptions pairs).within "Invalid compilation options"

end Config

/-- The text of a blob. -/
def Blob.report (b : Blob) : Attempt String := b.describe.within "Failed to decode stage table"

namespace Network

/-- The network in the contents of a file. -/
def ofFile (contents : Except FileError Bytes) : Outcome Network := do
  match contents with
  | .error cause => throw (.network (.file cause))
  | .ok bytes =>
    match String.fromUTF8? ⟨bytes⟩ with
    | none => throw (.network (.file .notText))
    | some text => parse text

end Network

inductive Command where
  | compile (network : String) (output : Option String) (options : List String) (noHw : Bool)
  | inspect (blob : String)
  deriving DecidableEq, Repr

/-- What a command does in the end. -/
inductive Effect where
  /-- Print a text. -/
  | print (text : String)
  /-- Write a file and say so. -/
  | write (path : String) (contents : Bytes) (note : String)

namespace Command

/-- The file a command reads. -/
def source : Command → String
  | compile network _ _ _ => network
  | inspect blob => blob

/-- What a command does with the contents of its file. -/
def perform (c : Command) (contents : Except FileError Bytes) : Attempt Effect := do
  match c with
  | compile path output options noHw =>
    let config ← Config.ofArguments options noHw
    let network ← (Network.ofFile contents).within s!"Failed to load network from {path}"
    let blob ← (network.compile config).within s!"Failed to compile network '{network.name}'"
    let target := output.getD (Path.withEnding path "blob")
    return .write target blob.bytes
      s!"Wrote {blob.stageCount} stages ({blob.length} bytes) to {target}\n"
  | inspect path =>
    let bytes ← (contents.mapError fun e => (Failure.ofFile e).within s!"Failed to read {path}")
    let blob ← (Blob.ofBytes bytes).within s!"{path} is not a valid blob"
    return .print (← blob.report)

/-- What is said if the file of an effect cannot be written. -/
def writeFailure (path : String) (cause : FileError) : Failure :=
  (Failure.ofFile cause).within s!"Failed to write blob to {path}"

end Command

end NetLower
