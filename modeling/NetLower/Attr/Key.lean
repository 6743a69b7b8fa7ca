/-
Attribute keys and values.  A key admits values of one kind only; an attribute is
a key together with a value of the kind it admits.
-/
import NetLower.Decimal.Notation

namespace NetLower

/-- The kind of an attribute value. -/
inductive AttrKind where
  | int
  | float
  | bool
  deriving DecidableEq, Repr

namespace AttrKind

def name : AttrKind → String
  | int => "Int"
  | float => "Float"
  | bool => "Bool"

end AttrKind

inductive AttrKey where
  | kernelSizeX
  | kernelSizeY
  | kernelSizeZ
  | kernelStrideX
  | kernelStrideY
  | kernelStrideZ
  | padLeft
  | padRight
  | padTop
  | padBottom
  | padFront
  | padBack
  | dilationX
  | dilationY
  | dilationZ
  | groupSize
  /-- Average pooling leaves padded elements out. -/
  | excludePad
  /-- The stage may run on the hardware. -/
  | tryHw
  /-- What a hardware stage does. -/
  | hwOpKind
  /-- A requested quantization scale. -/
  | scaleFactor
  /-- The multiplier of an affine power. -/
  | scale
  /-- The exponent of an affine power. -/
  | power
  /-- The offset of an affine power. -/
  | bias
  /-- The digit of the dimension a split or concatenation runs along. -/
  | axis
  deriving DecidableEq, Repr, Inhabited

namespace AttrKey

/-- Every key, in the order in which attributes are listed. -/
def all : List AttrKey :=
  [kernelSizeX, kernelSizeY, kernelSizeZ, kernelStrideX, kernelStrideY, kernelStrideZ, padLeft,
   padRight, padTop, padBottom, padFront, padBack, dilationX, dilationY, dilationZ, groupSize,
   excludePad, tryHw, hwOpKind, scaleFactor, scale, power, bias, axis]

/-- The place of a key among all keys. -/
def rank (k : AttrKey) : Nat := all.idxOf k

/-- The kind of value a key admits. -/
def kind : AttrKey → AttrKind
  | excludePad | tryHw => .bool
  | scaleFactor | scale | power | bias => .float
  | _ => .int

def name : AttrKey → String
  | kernelSizeX => "KernelSizeX"
  | kernelSizeY => "KernelSizeY"
  | kernelSizeZ => "KernelSizeZ"
  | kernelStrideX => "KernelStrideX"
  | kernelStrideY => "KernelStrideY"
  | kernelStrideZ => "KernelStrideZ"
  | padLeft => "PadLeft"
  | padRight => "PadRight"
  | padTop => "PadTop"
  | padBottom => "PadBottom"
  | padFront => "PadFront"
  | padBack => "PadBack"
  | dilationX => "DilationX"
  | dilationY => "DilationY"
  | dilationZ => "DilationZ"
  | groupSize => "GroupSize"
  | excludePad => "ExcludePad"
  | tryHw => "TryHw"
  | hwOpKind => "HwOpKind"
  | scaleFactor => "ScaleFactor"
  | scale => "Scale"
  | power => "Power"
  | bias => "Bias"
  | axis => "Axis"

def ofName? (s : String) : Option AttrKey := all.find? fun k => k.name == s

end AttrKey

inductive AttrValue where
  | int (value : Int32)
  | float (value : F32)
  | bool (value : Bool)
  deriving DecidableEq, Repr

namespace AttrValue

def kind : AttrValue → AttrKind
  | int _ => .int
  | float _ => .float
  | bool _ => .bool

/-- The value as messages quote it. -/
def text : AttrValue → String
  | int v => "Int(" ++ toString v.toInt ++ ")"
  | float v => "Float(" ++ Notation.quoted.text v ++ ")"
  | bool v => "Bool(" ++ toString v ++ ")"

/-- Equality of the values themselves, in which a NaN differs from everything. -/
def same : AttrValue → AttrValue → Bool
  | int a, int b => a == b
  | float a, float b => a.numEq b
  | bool a, bool b => a == b
  | _, _ => false

end AttrValue

/-- A key with a value of the kind it admits. -/
structure Attr where
  key : AttrKey
  value : AttrValue
  typed : value.kind = key.kind
  deriving DecidableEq

end NetLower
