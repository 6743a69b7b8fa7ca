/-
What makes a stage acceptable, right after it was made and once the graph is
finished.
-/
import NetLower.Stage.Slices
import NetLower.Stage.Slots

namespace NetLower

/-- The largest kernel side of the hardware. -/
def maxHwKernel : Int32 := 15

/-- The largest kernel step of the hardware. -/
def maxHwStride : Int32 := 8

namespace Site

/-- The window of a stage, which must move. -/
def checkWindow (s : Site) : Outcome Unit := do
  let window ← s.attrs.window
  Outcome.require window.moves (.attr (.stillWindow s.name))

/-- The tensor at input 0 and the one at output 0 are in a given order. -/
def checkMainOrder (s : Site) (order : Order) : Outcome Unit := do
  let input ← s.input 0
  let output ← s.output 0
  Outcome.forEach [input, output] fun d =>
    Outcome.require (d.desc.order = order)
      (.lowering (.dataOrder s.name d.name d.desc.order order))

/-- The main tensors are in the channel-innermost order. -/
def checkInterleaved (s : Site) : Outcome Unit := do
  let rank := (← s.input 0).desc.rank
  s.checkMainOrder (← Order.interleaved rank)

/-- A permutation has one input and one output of the same shape and type. -/
def checkPermute (s : Site) : Outcome Unit := do
  match s.inputs, s.outputs with
  | [input], [output] =>
    Outcome.require (input.desc.dims = output.desc.dims ∧ input.desc.dtype = output.desc.dtype)
      (.shape (.permuteChanges s.name input.desc.dims output.desc.dims))
  | _, _ => throw (.graph (.permuteSlots s.name))

/-- A copy has one input and one output with the same descriptor. -/
def checkCopy (s : Site) : Outcome Unit := do
  match s.inputs, s.outputs with
  | [input], [output] =>
    Outcome.require (input.desc = output.desc) (.shape (.copyChanges s.name))
  | _, _ => throw (.graph (.copySlots s.name))

end Site

namespace StageFamily

/-- Check a stage right after it was made. -/
def initialCheck (f : StageFamily) (s : Site) : Outcome Unit :=
  match f with
  | .stub => do
    match ← s.stubSort with
    | .weightable => s.checkWeightable
    | .pooling => s.checkUnary
  | .convolution => do
    s.checkWeightable
    s.checkWindow
    let group ← s.attrs.getIntOr .groupSize 1
    Outcome.require (1 ≤ group) (.attr (.groupSize s.name group))
  | .fullyConnected => do
    s.checkWeightable
    let rank := (← s.output 0).desc.rank
    Outcome.require (rank = 2) (.shape (.outputNotFlat s.name))
  | .pooling => do
    s.checkUnary
    s.checkWindow
  | .hardware => do s.checkHardware (← s.hardwareOp)
  | .power => do
    s.checkUnary
    Outcome.forEach [AttrKey.scale, AttrKey.power, AttrKey.bias] fun key =>
      Outcome.check (s.attrs.getFloat key)
  | .permute => s.checkPermute
  | .copy => s.checkCopy
  | .split => Outcome.check s.splitOffsets
  | .concat => Outcome.check s.concatOffsets

/-- Check a stage of the finished graph. -/
def finalCheck (f : StageFamily) (s : Site) : Outcome Unit :=
  match f with
  | .stub => s.stubLeft
  | .convolution => do
    s.checkWeightable
    s.checkInterleaved
  | .fullyConnected => do
    s.checkWeightable
    let input ← s.input 0
    let canonical ← Order.canonical input.desc.rank
    Outcome.require (input.desc.order = canonical) (.lowering (.notCanonical s.name input.name))
  | .pooling => do
    s.checkUnary
    s.checkInterleaved
  | .hardware => do
    let op ← s.hardwareOp
    s.checkHardware op
    if op = .fullyConnected then return ()
    else
      let window ← s.attrs.window
      Outcome.require (window.kernel.x ≤ maxHwKernel ∧ window.kernel.y ≤ maxHwKernel
        ∧ window.stride.x ≤ maxHwStride) (.lowering (.hardwareLimits s.name))
      s.checkMainOrder Order.nchw
  | .power => s.checkUnary
  | .permute => s.checkPermute
  | .copy => s.checkCopy
  | .split => Outcome.check s.splitOffsets
  | .concat => Outcome.check s.concatOffsets

end StageFamily

end NetLower
