/-
Networks as they are described: named tensors, and layers that refer to them by
name, in the order in which they run.
-/
import NetLower.Error

namespace NetLower

/-- What a tensor of a network is for. -/
inductive TensorKind where
  /-- Given by the caller. -/
  | input
  /-- Handed back to the caller. -/
  | output
  /-- A constant. -/
  | weight
  /-- Computed on the way. -/
  | intermediate
  deriving DecidableEq, Repr

namespace TensorKind

def all : List TensorKind := [input, output, weight, intermediate]

def name : TensorKind → String
  | input => "Input"
  | output => "Output"
  | weight => "Weight"
  | intermediate => "Intermediate"

end TensorKind

/-- A tensor of a network. -/
structure TensorInfo where
  name : String
  dtype : ElementType := .f16
  /-- Sizes in canonical order. -/
  shape : List Nat
  kind : TensorKind
  /-- The values of a constant, in canonical order. -/
  data : Option (List F32) := none
  deriving DecidableEq

namespace TensorInfo

/-- A constant tensor. -/
def weight (name : String) (shape : List Nat) (data : List F32) : TensorInfo :=
  { name, shape, kind := .weight, data := some data }

end TensorInfo

/-- The value of a layer attribute. -/
inductive LayerAttr where
  /-- A whole number of 64 bits. -/
  | int (value : Int)
  | float (value : F32)
  | string (value : String)
  | ints (values : List Int)
  | floats (values : List F32)
  deriving DecidableEq

/-- A layer of a network. -/
structure Layer where
  name : String
  /-- The operation. -/
  type : String
  /-- Names of the tensors it reads. -/
  inputs : List String := []
  /-- Names of the tensors it writes. -/
  outputs : List String := []
  /-- Attributes, each name once. -/
  attributes : List (String × LayerAttr) := []
  /-- The name of the tensor of weights. -/
  weights : Option String := none
  /-- The name of the tensor of biases. -/
  biases : Option String := none
  deriving DecidableEq

structure Network where
  name : String
  version : Nat
  tensors : List TensorInfo := []
  layers : List Layer := []
  inputs : List String := []
  outputs : List String := []
  deriving DecidableEq

namespace Network

/-- The oldest version that is accepted. -/
def minVersion : Nat := 2

/-- The newest version that is understood. -/
def maxVersion : Nat := 7

/-- A network of the newest version with nothing in it. -/
def new (name : String) : Network := { name, version := maxVersion }

/-- The tensor with a name; the first one, if there are several. -/
def tensor (n : Network) (name : String) : Outcome TensorInfo :=
  match n.tensors.find? fun t => t.name == name with
  | some t => .ok t
  | none => .error (.network (.noTensor name))

/-- Add a tensor, and list it if the caller gives it or gets it back. -/
def addTensor (n : Network) (t : TensorInfo) : Network :=
  { n with
    tensors := n.tensors ++ [t]
    inputs := if t.kind = .input then n.inputs ++ [t.name] else n.inputs
    outputs := if t.kind = .output then n.outputs ++ [t.name] else n.outputs }

def addLayer (n : Network) (l : Layer) : Network := { n with layers := n.layers ++ [l] }

end Network

end NetLower
