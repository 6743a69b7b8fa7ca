/-
Networks as JSON text.  Every field is written, in the order in which it may also
be given without its name.
-/
import NetLower.Decimal.Notation
import NetLower.Json.Document
import NetLower.Network.Decode

namespace NetLower

namespace Document

def ofNat (n : Nat) : Document := .atom (toString n)

def ofInt (n : Int) : Document := .atom (toString n)

/-- A number; what is not finite has no numeral and is written as `null`. -/
def ofF32 (x : F32) : Document :=
  .atom (if x.isFinite then Notation.network.text x else "null")

def ofStrings (items : List String) : Document := .list (items.map ofString)

end Document

namespace TensorInfo

def document (t : TensorInfo) : Document :=
  .record [("name", .ofString t.name), ("dtype", .ofString t.dtype.word),
    ("shape", .list (t.shape.map .ofNat)), ("kind", .ofString t.kind.word),
    ("data", .ofOption (fun values => .list (values.map .ofF32)) t.data)]

end TensorInfo

namespace LayerAttr

def document : LayerAttr → Document
  | int v => .ofInt v
  | float v => .ofF32 v
  | string v => .ofString v
  | ints vs => .list (vs.map .ofInt)
  | floats vs => .list (vs.map .ofF32)

end LayerAttr

namespace Layer

def document (l : Layer) : Document :=
  .record [("name", .ofString l.name), ("type", .ofString l.type),
    ("inputs", .ofStrings l.inputs), ("outputs", .ofStrings l.outputs),
    ("attributes", .record (l.attributes.map fun (name, value) => (name, value.document))),
    ("weights", .ofOption .ofString l.weights), ("biases", .ofOption .ofString l.biases)]

end Layer

namespace Network

def document (n : Network) : Document :=
  .record [("name", .ofString n.name), ("ir_version", .ofNat n.version),
    ("tensors", .list (n.tensors.map TensorInfo.document)),
    ("layers", .list (n.layers.map Layer.document)),
    ("inputs", .ofStrings n.inputs), ("outputs", .ofStrings n.outputs)]

/-- The text of a network. -/
def text (n : Network) : String := n.document.text

end Network

end NetLower
