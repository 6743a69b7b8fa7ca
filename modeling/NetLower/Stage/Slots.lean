/-
What a stage may have at its slots: how many tensors, of which element types and
uses.  Stages with weights read activations at input 0, weights at input 1 and
biases, or the placeholder for them, at input 2.
-/
import NetLower.Outcome
import NetLower.Stage.Family
import NetLower.Stage.Site

namespace NetLower.Site

/-- The operation of a hardware stage. -/
def hardwareOp (s : Site) : Outcome HardwareOp := do
  let code ← s.attrs.getInt .hwOpKind
  match HardwareOp.ofCode? code with
  | some op => return op
  | none => .error (.attr (.hardwareOp s.name code))

/-- Check the number and the element types of the slots. -/
def checkTypes (s : Site) (inputs outputs : List ElementType) : Outcome Unit := do
  Outcome.require (s.inputs.length = inputs.length ∧ s.outputs.length = outputs.length)
    (.slots s.name (.count inputs.length outputs.length s.inputs.length s.outputs.length))
  Outcome.forEach (s.inputs.zip inputs).zipIdx fun ((d, expected), slot) =>
    Outcome.require (d.desc.dtype = expected)
      (.slots s.name (.inputType slot d.name d.desc.dtype expected))
  Outcome.forEach (s.outputs.zip outputs).zipIdx fun ((d, expected), slot) =>
    Outcome.require (d.desc.dtype = expected)
      (.slots s.name (.outputType slot d.name d.desc.dtype expected))

/-- One tensor in and one out, both of halves. -/
def checkUnary (s : Site) : Outcome Unit := s.checkTypes [.f16] [.f16]

/-- The uses allowed at the inputs of a stage with weights. -/
def weightableUsages : List (List Usage) :=
  [[.input, .output, .intermediate, .const], [.const], [.const, .fake]]

/-- Check the slots of a stage with weights. -/
def checkWeightable (s : Site) : Outcome Unit := do
  s.checkTypes [.f16, .f16, .f16] [.f16]
  Outcome.forEach (s.inputs.zip weightableUsages).zipIdx fun ((d, allowed), slot) =>
    Outcome.require (d.usage ∈ allowed) (.slots s.name (.inputUsage slot d.name d.usage allowed))

/-- Check the slots of a hardware stage. -/
def checkHardware (s : Site) (op : HardwareOp) : Outcome Unit :=
  if op.isWeightable then s.checkWeightable else s.checkUnary

/-- The use of the biases of a stage with weights. Weights that are not constant, and biases
that are neither constant nor absent, break a promise. -/
def biasesUsage (s : Site) : Outcome Usage := do
  let weights := (← s.input 1).usage
  let biases := (← s.input 2).usage
  Outcome.require (weights = .const) (.fault (.weightsUsage s.name weights))
  match biases with
  | .const | .fake => return biases
  | other => throw (.fault (.biasesUsage s.name other))

/-- The fault of asking a stub for what only real stages have. -/
def stubLeft (s : Site) : Outcome α := .error (.fault (.stubLeft s.name s.kind))

/-- The two sorts of stubs. -/
inductive StubSort where
  | weightable
  | pooling

/-- The sort of a stub. -/
def stubSort (s : Site) : Outcome StubSort :=
  match s.kind with
  | .stubConv | .stubFullyConnected | .stubDeconv => .ok .weightable
  | .stubMaxPool | .stubAvgPool => .ok .pooling
  | other => .error (.fault (.notStub other))

end NetLower.Site
