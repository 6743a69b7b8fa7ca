/-
Command lines.
-/
import NetLower.Cli.Command

namespace NetLower

/-- A compile command as far as its arguments have been read. -/
structure CompileArgs where
  network : Option String := none
  output : Option String := none
  options : List String := []
  noHw : Bool := false
  deriving DecidableEq, Repr

/-- The options that take a value. -/
inductive ValueOption where
  | output
  | option
  deriving DecidableEq, Repr

namespace ValueOption

def ofFlag? : String → Option ValueOption
  | "-o" => some output
  | "--output" => some output
  | "-O" => some option
  | "--option" => some option
  | _ => none

end ValueOption

namespace CompileArgs

/-- The arguments with the network; it may be given once only, and its path is not empty. -/
def setNetwork (a : CompileArgs) (path : String) : Option CompileArgs :=
  if a.network.isSome || path.isEmpty then none else some { a with network := some path }

/-- The arguments with the value of an option. The output may be given once only, and its path
is not empty. -/
def setValue (a : CompileArgs) (o : ValueOption) (value : String) : Option CompileArgs :=
  match o with
  | .output =>
    if a.output.isSome || value.isEmpty then none else some { a with output := some value }
  | .option => some { a with options := a.options ++ [value] }

/-- Whether an argument is an option and not a value. -/
def isFlag (argument : String) : Bool := argument.startsWith "-" && argument != "-"

/-- An option together with its value, as in `--output=FILE` and `-oFILE`. -/
def attached? (argument : String) : Option (ValueOption × String) :=
  match argument.toList with
  | '-' :: '-' :: rest =>
    match rest.span (· != '=') with
    | (name, _ :: value) => do
      return (← ValueOption.ofFlag? ("--" ++ String.ofList name), String.ofList value)
    | (_, []) => none
  | '-' :: letter :: '=' :: value => do
    return (← ValueOption.ofFlag? (String.ofList ['-', letter]), String.ofList value)
  | '-' :: letter :: value => do
    return (← ValueOption.ofFlag? (String.ofList ['-', letter]), String.ofList value)
  | _ => none

/-- Read arguments; nothing comes out if they make no sense. -/
def read (a : CompileArgs) : List String → Option CompileArgs
  | [] => some a
  | argument :: rest =>
    match ValueOption.ofFlag? argument, rest with
    | some o, value :: rest => do
      if isFlag value then none else read (← a.setValue o value) rest
    | some _, [] => none
    | none, rest =>
      if argument = "--no-hw" then
        if a.noHw then none else read { a with noHw := true } rest
      else if isFlag argument then do
        let (o, value) ← attached? argument
        read (← a.setValue o value) rest
      else do read (← a.setNetwork argument) rest

end CompileArgs

namespace Command

/-- The command that a command line spells. -/
def ofArguments? : List String → Option Command
  | "compile" :: rest => do
    let a ← CompileArgs.read {} rest
    return compile (← a.network) a.output a.options a.noHw
  | ["inspect", blob] => if CompileArgs.isFlag blob || blob.isEmpty then none else some (inspect blob)
  | _ => none

/-- What is printed for a command line that makes no sense. -/
def usage : String :=
  "Usage:\n" ++
  "  compile NETWORK [-o FILE] [-O KEY=VALUE]... [--no-hw]\n" ++
  "  inspect BLOB\n"

end Command

end NetLower
