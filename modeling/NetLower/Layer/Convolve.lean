/-
Convolution and deconvolution layers.
-/
import NetLower.Layer.Constants
import NetLower.Layer.Hardware

namespace NetLower

namespace ConvKind

/-- The suffix of the constants that belong to the stage. -/
def suffix : ConvKind → String
  | convolution => "@conv"
  | deconvolution => "@deconv"

/-- The stub for the operation. -/
def stub : ConvKind → StageKind
  | convolution => .stubConv
  | deconvolution => .stubDeconv

/-- The channels that split into groups. -/
def grouped (kind : ConvKind) (input output : Nat) : Nat :=
  match kind with
  | convolution => input
  | deconvolution => output

/-- The first two sizes of the weights. -/
def weightChannels (kind : ConvKind) (input output groups : Nat) : List Nat :=
  match kind with
  | convolution => [output, input / groups]
  | deconvolution => [input, output / groups]

end ConvKind

/-- Kernel sizes as sizes of a tensor, outermost first. -/
def Window.kernelSizes (w : Window) (volume : Bool) : List Nat :=
  let size (k : Int32) : Nat := max 1 k.toInt.toNat
  (if volume then [size w.kernel.z] else []) ++ [size w.kernel.y, size w.kernel.x]

namespace Layer

/-- The number of channels of a tensor. -/
def channels (l : Layer) (desc : Desc) : Outcome Nat :=
  match desc.dim? .c with
  | some count => .ok count
  | none => l.fail (.noChannels desc.dims)

/-- The number of groups of a layer. -/
def groups (l : Layer) : Outcome Int32 := do
  let value ← l.attrOr LayerAttr.toInt "group" 1
  if 1 ≤ value ∧ value ≤ Int32.maxValue.toInt then return Int32.ofInt value
  else l.fail (.group value)

/-- The axes of space of a tensor with a rank. -/
def spatialAxes (rank : Nat) : Nat := if rank = 5 then 3 else 2

/-- Add the stub of a convolution or deconvolution. -/
def addConvolve (kind : ConvKind) (l : Layer) (config : Config) (g : Graph)
    (input output : DataId) : Outcome (StageId × Graph) := do
  let inputDesc := (← g.data input).desc
  let outputDesc := (← g.data output).desc
  let rank := inputDesc.rank
  if rank < 3 ∨ 5 < rank then l.fail (.convRank kind)
  else if outputDesc.rank ≠ rank then l.fail (.convOutputRank kind)
  else
    let volume := rank == 5
    let window ← l.window (spatialAxes rank) true
    let groups ← l.groups
    let groupCount := groups.toInt.toNat
    let inputChannels ← l.channels inputDesc
    let outputChannels ← l.channels outputDesc
    let grouped := kind.grouped inputChannels outputChannels
    if grouped % groupCount ≠ 0 then l.fail (.groupSplit kind grouped groups)
    else
      let weightsDesc ← Desc.new .f16
        (kind.weightChannels inputChannels outputChannels groupCount ++ window.kernelSizes volume)
      let (weights, g) ← l.addWeights g kind.suffix weightsDesc
      let (biases, g) ← l.addBiases g kind.suffix outputChannels
      let attrs ← Attrs.empty.setAll (Attrs.ofWindow window volume ++
        [(.groupSize, .int groups), (.tryHw, .bool (config.allowsWindow l.name window rank))])
      g.addStage { name := l.name, kind := kind.stub, attrs } [input, weights, biases] [output]

end Layer

end NetLower
