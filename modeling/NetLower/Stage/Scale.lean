/-
How scales pass through a stage.  A stage is asked three ways: which scales it
accepts, to take a scale into its own parameters, or to hand on the scale of its
input.
-/
import NetLower.Stage.Slots

namespace NetLower

inductive ScaleStep where
  /-- Ask only; parameters stay as they are. -/
  | check
  /-- Take the scale into the stage's own parameters. -/
  | scaleInput
  /-- Hand the scale of the input on. -/
  | propagate
  deriving DecidableEq, Repr

namespace ScaleStep

def all : List ScaleStep := [check, scaleInput, propagate]

def name : ScaleStep → String
  | check => "Check"
  | scaleInput => "ScaleInput"
  | propagate => "Propagate"

end ScaleStep

/-- The scale of input 0; 1 where none is given. -/
def mainScale (scales : List F32) : F32 := scales.headD F32.one

namespace Site

/-- The scale of input 0 at every output. -/
def passScale (s : Site) (scales : List F32) : Report F32 :=
  { (Report.blank s : Report F32) with outputs := s.outputs.map fun _ => some (mainScale scales) }

/-- Weights take the scale unless it is only handed on; biases and the output always take it. -/
def weightableScale (s : Site) (scales : List F32) (step : ScaleStep) : Outcome (Report F32) := do
  let biases ← s.biasesUsage
  let scale := mainScale scales
  let _ ← s.output 0
  let report := (Report.blank s).setInput 1 (if step = .propagate then F32.one else scale)
  let report := if biases = .const then report.setInput 2 scale else report
  return report.setOutput 0 scale

/-- A linear power takes the scale into its offset, and its multiplier too where the scale
starts; any other power needs unscaled values. -/
def powerScale (s : Site) (scales : List F32) (step : ScaleStep) :
    Outcome (Report F32 × Attrs) := do
  let _ ← s.input 0
  let _ ← s.output 0
  let power ← s.attrs.getFloat .power
  if !power.numEq F32.one then
    return (((Report.blank s).setInput 0 F32.one).setOutput 0 F32.one, s.attrs)
  else
    let scale := mainScale scales
    let attrs ← if step = .scaleInput then s.attrs.mulFloat .scale scale else pure s.attrs
    let attrs ← if step ≠ .check then attrs.mulFloat .bias scale else pure attrs
    return ((Report.blank s).setOutput 0 scale, attrs)

/-- The inputs of a concatenation share one scale, or have none. -/
def concatScale (s : Site) (scales : List F32) : Outcome (Report F32) := do
  let first := mainScale scales
  let common := if scales.all (·.numEq first) then first else F32.one
  let _ ← s.output 0
  let report : Report F32 := { Report.blank s with inputs := s.inputs.map fun _ => some common }
  return report.setOutput 0 common

end Site

/-- The scales a stage reports, and its attributes afterwards. -/
def StageFamily.scale (f : StageFamily) (s : Site) (scales : List F32) (step : ScaleStep) :
    Outcome (Report F32 × Attrs) :=
  let keep (r : Outcome (Report F32)) : Outcome (Report F32 × Attrs) := return (← r, s.attrs)
  match f with
  | .stub => do
    match ← s.stubSort with
    | .weightable => keep (s.weightableScale scales step)
    | .pooling =>
      let _ ← s.output 0
      return ((Report.blank s).setOutput 0 (mainScale scales), s.attrs)
  | .convolution | .fullyConnected => keep (s.weightableScale scales step)
  | .hardware => do
    if (← s.hardwareOp).isWeightable then keep (s.weightableScale scales step)
    else return (s.passScale scales, s.attrs)
  | .power => s.powerScale scales step
  | .pooling | .permute | .copy | .split => .ok (s.passScale scales, s.attrs)
  | .concat => keep (s.concatScale scales)

end NetLower
