/-
The constants of a layer.  A stage does not read the tensors of the network but
copies of them in the shapes it expects; where a layer has no biases it reads the
placeholder.
-/
import NetLower.Graph.Edit
import NetLower.Layer.Window

namespace NetLower.Layer

/-- The tensor of a graph with a name. -/
def constNamed (l : Layer) (g : Graph) (name : String) : Outcome DataId :=
  match g.dataNamed? name with
  | some id => .ok id
  | none => l.fail (.weightsMissing name)

/-- The weights of a layer in a shape of their own. -/
def addWeights (l : Layer) (g : Graph) (suffix : String) (desc : Desc) :
    Outcome (DataId × Graph) := do
  match l.weights with
  | none => l.fail .noWeights
  | some name => g.duplicate (← l.constNamed g name) suffix desc

/-- The biases of a layer, one for each output channel, or the placeholder. -/
def addBiases (l : Layer) (g : Graph) (suffix : String) (channels : Nat) :
    Outcome (DataId × Graph) := do
  match l.biases with
  | none => g.addPlaceholder
  | some name =>
    let source ← l.constNamed g name
    let desc ← Desc.new .f16 [channels]
    g.duplicate source suffix desc

end NetLower.Layer
