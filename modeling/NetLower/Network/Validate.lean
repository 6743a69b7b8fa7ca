/-
Whether a network holds together: versions, names, shapes and references.
-/
import NetLower.Network.Basic
import NetLower.Outcome
import NetLower.Size

namespace NetLower

namespace TensorInfo

/-- The number of values the shape calls for. -/
def elements (t : TensorInfo) : Outcome Nat := Size.product t.shape

/-- Whether the shape and the values of a tensor are sound. -/
def validate (t : TensorInfo) : Outcome Unit := do
  Outcome.require (t.shape ≠ [] ∧ 0 ∉ t.shape) (.network (.malformed (.shape t.name t.shape)))
  match t.kind, t.data with
  | .weight, none => throw (.network (.malformed (.noData t.name)))
  | .weight, some values =>
    let needed ← t.elements
    Outcome.require (values.length = needed)
      (.network (.malformed (.valueCount t.name values.length needed)))
  | _, _ => return ()

end TensorInfo

namespace Network

/-- Whether the version can be read. -/
def validateVersion (n : Network) : Outcome Unit :=
  if n.version < minVersion then .error (.network (.oldVersion n.version))
  else if maxVersion < n.version then .error (.network (.newVersion n.version))
  else .ok ()

/-- Whether tensors are sound and no name is given twice; `seen` lists the names before them. -/
def validateTensors (seen : List String) : List TensorInfo → Outcome Unit
  | [] => .ok ()
  | t :: rest => do
    Outcome.require (t.name ∉ seen) (.network (.malformed (.tensorTwice t.name)))
    t.validate
    validateTensors (t.name :: seen) rest

/-- Whether there is a tensor for every name. -/
def validateNames (n : Network) (names : List String) : Outcome Unit :=
  Outcome.forEach names fun name => Outcome.check (n.tensor name)

/-- Whether the weights and biases of a layer are constants. -/
def validateConstants (n : Network) (l : Layer) : Outcome Unit :=
  Outcome.forEach (l.weights.toList ++ l.biases.toList) fun name => do
    let t ← n.tensor name
    Outcome.require (t.kind = .weight) (.network (.malformed (.notWeights l.name name)))

/-- Whether layers are sound and no name is given twice; `seen` lists the names before them. -/
def validateLayers (n : Network) (seen : List String) : List Layer → Outcome Unit
  | [] => .ok ()
  | l :: rest => do
    Outcome.require (l.name ∉ seen) (.network (.malformed (.layerTwice l.name)))
    n.validateNames (l.inputs ++ l.outputs)
    n.validateConstants l
    validateLayers n (l.name :: seen) rest

/-- Whether the network holds together. -/
def validate (n : Network) : Outcome Unit := do
  n.validateVersion
  validateTensors [] n.tensors
  n.validateNames (n.inputs ++ n.outputs)
  n.validateLayers [] n.layers

end Network

end NetLower
