/-
Fully connected layers.
-/
import NetLower.Layer.Convolve

namespace NetLower.Layer

/-- The suffix of the constants that belong to a fully connected stage. -/
def denseSuffix : String := "@fc"

/-- Add the stub of a fully connected layer. Every item of the batch is flattened. -/
def addDense (l : Layer) (config : Config) (g : Graph) (input output : DataId) :
    Outcome (StageId × Graph) := do
  let inputDesc := (← g.data input).desc
  let outputDesc := (← g.data output).desc
  let batch := (inputDesc.dim? .n).getD 1
  if inputDesc.rank < 2 then l.fail .notBatched
  else if outputDesc.rank ≠ 2 then l.fail .outputNotFlat
  else if outputDesc.dim? .n ≠ some batch then
    l.fail (.batchMismatch inputDesc.dims outputDesc.dims)
  else
    let inputSize := (← inputDesc.total) / batch
    let outputChannels ← l.channels outputDesc
    let weightsDesc ← Desc.new .f16 [outputChannels, inputSize]
    let (weights, g) ← l.addWeights g denseSuffix weightsDesc
    let (biases, g) ← l.addBiases g denseSuffix outputChannels
    let attrs ← Attrs.empty.set .tryHw (.bool (config.allowsHardware l.name))
    g.addStage { name := l.name, kind := .stubFullyConnected, attrs } [input, weights, biases]
      [output]

end NetLower.Layer
