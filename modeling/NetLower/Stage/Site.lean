/-
A stage seen in its place: the stage together with the tensors at its slots.
What a stage asks for and what it writes depends on its site alone.
-/
import NetLower.Graph.Basic

namespace NetLower

/-- A stage and the tensors it reads and writes, by slot. -/
structure Site where
  stage : Stage
  inputs : List Data
  outputs : List Data

namespace Site

def name (s : Site) : String := s.stage.name

def kind (s : Site) : StageKind := s.stage.kind

def attrs (s : Site) : Attrs := s.stage.attrs

/-- The tensor at an input slot. -/
def input (s : Site) (slot : Nat) : Outcome Data :=
  match s.inputs[slot]? with
  | some d => .ok d
  | none => .error (.graph (.noInput s.name slot))

/-- The tensor at an output slot. -/
def output (s : Site) (slot : Nat) : Outcome Data :=
  match s.outputs[slot]? with
  | some d => .ok d
  | none => .error (.graph (.noOutput s.name slot))

end Site

/-- The site of a stage. -/
def Graph.site (g : Graph) (id : StageId) : Outcome Site := do
  let stage ← g.stage id
  let inputs ← (← g.inputIds stage).mapM g.data
  let outputs ← (← g.outputIds stage).mapM g.data
  return { stage, inputs, outputs }

/-- What a stage reports for its slots; a slot it says nothing about has no value. -/
structure Report (α : Type) where
  inputs : List (Option α)
  outputs : List (Option α)
  deriving DecidableEq, Repr

namespace Report

/-- Nothing said about any slot. -/
def blank (s : Site) : Report α := ⟨s.inputs.map fun _ => none, s.outputs.map fun _ => none⟩

/-- The same value for every slot. -/
def uniform (s : Site) (a : α) : Report α :=
  ⟨s.inputs.map fun _ => some a, s.outputs.map fun _ => some a⟩

def setInput (r : Report α) (slot : Nat) (a : α) : Report α :=
  { r with inputs := r.inputs.set slot (some a) }

def setOutput (r : Report α) (slot : Nat) (a : α) : Report α :=
  { r with outputs := r.outputs.set slot (some a) }

/-- What is said about an input slot. -/
def input? (r : Report α) (slot : Nat) : Option α := r.inputs[slot]?.join

/-- What is said about an output slot. -/
def output? (r : Report α) (slot : Nat) : Option α := r.outputs[slot]?.join

def isBlank (r : Report α) : Bool := (r.inputs ++ r.outputs).all Option.isNone

end Report

end NetLower
