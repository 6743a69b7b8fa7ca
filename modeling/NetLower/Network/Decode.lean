/-
Networks from their JSON form.
-/
import NetLower.Json.Decode
import NetLower.Network.Validate

namespace NetLower

namespace ElementType

/-- The word for an element type in a network. -/
def word : ElementType → String
  | f16 => "f16"
  | f32 => "f32"
  | i32 => "i32"
  | u8 => "u8"

end ElementType

namespace TensorKind

/-- The word for a kind of tensor in a network. -/
def word : TensorKind → String
  | input => "input"
  | output => "output"
  | weight => "weight"
  | intermediate => "intermediate"

end TensorKind

namespace TensorInfo

def fieldNames : List String := ["name", "dtype", "shape", "kind", "data"]

/-- A tensor; its data may be left out. -/
def ofJson? (j : Json) : Option TensorInfo := do
  match ← j.fields? fieldNames 4 with
  | [some name, some dtype, some shape, some kind, data] =>
    let name ← name.text?
    let dtype ← dtype.word? ElementType.all ElementType.word
    let shape ← shape.list? (Json.natBelow? Size.range)
    let kind ← kind.word? TensorKind.all TensorKind.word
    let data ← (data.getD .null).optional? (Json.list? Json.float?)
    return { name, dtype, shape, kind, data }
  | _ => none

end TensorInfo

namespace LayerAttr

/-- A whole number of 64 bits. -/
def wordOf? : Json → Option Int := Json.intWithin? Int64.minValue.toInt Int64.maxValue.toInt

/-- An attribute value: the first of whole number, number, text, list of whole numbers and list
of numbers that fits. -/
def ofJson? (j : Json) : Option LayerAttr :=
  (wordOf? j).map int
    <|> j.float?.map float
    <|> j.text?.map string
    <|> (j.list? wordOf?).map ints
    <|> (j.list? Json.float?).map floats

/-- Attributes with one more; the last value of a name counts. -/
def insert (name : String) (value : LayerAttr) (attributes : List (String × LayerAttr)) :
    List (String × LayerAttr) :=
  attributes.filter (fun a => a.1 != name) ++ [(name, value)]

/-- The attributes in a record. -/
def record? : Json → Option (List (String × LayerAttr))
  | .record fields => fields.foldlM (fun attributes (key, value) => do
      return insert (← key) (← ofJson? value) attributes) []
  | _ => none

end LayerAttr

namespace Layer

def fieldNames : List String :=
  ["name", "type", "inputs", "outputs", "attributes", "weights", "biases"]

/-- A layer; attributes, weights and biases may be left out. -/
def ofJson? (j : Json) : Option Layer := do
  match ← j.fields? fieldNames 4 with
  | [some name, some type, some inputs, some outputs, attributes, weights, biases] =>
    let name ← name.text?
    let type ← type.text?
    let inputs ← inputs.list? Json.text?
    let outputs ← outputs.list? Json.text?
    let attributes ← LayerAttr.record? (attributes.getD (.record []))
    let weights ← (weights.getD .null).optional? Json.text?
    let biases ← (biases.getD .null).optional? Json.text?
    return { name, type, inputs, outputs, attributes, weights, biases }
  | _ => none

end Layer

namespace Network

def fieldNames : List String := ["name", "ir_version", "tensors", "layers", "inputs", "outputs"]

/-- A network, whether it holds together or not. -/
def ofJson? (j : Json) : Option Network := do
  match ← j.fields? fieldNames 6 with
  | [some name, some version, some tensors, some layers, some inputs, some outputs] =>
    let name ← name.text?
    let version ← version.natBelow? UInt32.size
    let tensors ← tensors.list? TensorInfo.ofJson?
    let layers ← layers.list? Layer.ofJson?
    let inputs ← inputs.list? Json.text?
    let outputs ← outputs.list? Json.text?
    return { name, version, tensors, layers, inputs, outputs }
  | _ => none

/-- A network in JSON that holds together. -/
def ofJson (j : Json) : Outcome Network :=
  match ofJson? j with
  | none => .error (.network .json)
  | some n => do
    n.validate
    return n

/-- The network a text describes. -/
def parse (text : String) : Outcome Network :=
  match Json.parse? text with
  | none => .error (.network .json)
  | some j => ofJson j

end Network

end NetLower
