/-
The graph of a network: a tensor for each of its tensors, in the same order, and a
stage for each layer.  What may run on the hardware becomes a stub.
-/
import NetLower.Layer.Affine
import NetLower.Layer.Convolve
import NetLower.Layer.Dense
import NetLower.Layer.Pool
import NetLower.Network.Validate

namespace NetLower

/-- The operations that layers name. -/
inductive Operation where
  | convolve (kind : ConvKind)
  | dense
  | pool
  | power
  deriving DecidableEq, Repr

namespace Operation

def ofName? : String → Option Operation
  | "Convolution" => some (convolve .convolution)
  | "Deconvolution" => some (convolve .deconvolution)
  | "FullyConnected" => some dense
  | "InnerProduct" => some dense
  | "Pooling" => some pool
  | "Power" => some power
  | _ => none

end Operation

namespace Layer

/-- The single input and the single output of a layer. -/
def slots (l : Layer) (inputs outputs : List DataId) : Outcome (DataId × DataId) :=
  match inputs, outputs with
  | [input], [output] => .ok (input, output)
  | _, _ => l.fail (.slotCount inputs.length outputs.length)

/-- Add the stage of a layer. -/
def addStage (l : Layer) (config : Config) (g : Graph) (inputs outputs : List DataId) :
    Outcome (StageId × Graph) := do
  match Operation.ofName? l.type with
  | none => throw (.unsupported l.name l.type)
  | some operation =>
    let (input, output) ← l.slots inputs outputs
    match operation with
    | .convolve kind => addConvolve kind l config g input output
    | .dense => l.addDense config g input output
    | .pool => l.addPool config g input output
    | .power => l.addPower g input output

/-- The scale a layer asks for. -/
def scaleFactor? (l : Layer) : Outcome (Option F32) := do
  if !l.hasAttr "scale_factor" then return none
  let scale ← l.attr LayerAttr.toFloat "scale_factor"
  if scale.isFinite && scale.isPositive then return some scale
  else l.fail (.scaleFactor scale)

/-- Add the stage of a layer, with its layer and the scale it asks for. -/
def addTo (l : Layer) (config : Config) (g : Graph) (inputs outputs : List DataId) :
    Outcome Graph := do
  let (id, g) ← l.addStage config g inputs outputs
  let scale ← l.scaleFactor?
  let g := g.modifyStage id fun s => { s with origin := some l.name }
  match scale with
  | some scale => g.setAttr id .scaleFactor (.float scale)
  | none => return g

end Layer

namespace TensorInfo

/-- Add a tensor of a network to a graph. -/
def addTo (t : TensorInfo) (g : Graph) : Outcome Graph := do
  let desc ← Desc.new t.dtype t.shape
  let (_, g) ← match t.kind with
    | .input => g.addData t.name desc .input
    | .output => g.addData t.name desc .output
    | .intermediate => g.addData t.name desc .intermediate
    | .weight => g.addConst t.name desc (t.data.getD []).toArray
  return g

end TensorInfo

namespace Network

/-- The tensor of the graph for a name: tensors have the same numbers in network and graph. -/
def dataId (n : Network) (name : String) : Outcome DataId :=
  match n.tensors.findIdx? fun t => t.name == name with
  | some index => .ok ⟨index⟩
  | none => .error (.network (.noTensor name))

/-- The graph of a network. -/
def graph (n : Network) (config : Config) : Outcome Graph := do
  n.validate
  let g ← n.tensors.foldlM (fun g t => t.addTo g) { name := n.name }
  n.layers.foldlM (fun g l => do
    let inputs ← l.inputs.mapM n.dataId
    let outputs ← l.outputs.mapM n.dataId
    l.addTo config g inputs outputs) g

end Network

end NetLower
