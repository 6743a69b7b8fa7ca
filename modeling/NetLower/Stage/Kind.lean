/-
Kinds of stages.  Stub kinds stand for operations that still have to be given to
the hardware or to software; every other kind has a code in the blob.
-/
namespace NetLower

inductive StageKind where
  | stubConv
  | stubFullyConnected
  | stubDeconv
  | stubMaxPool
  | stubAvgPool
  | convolution
  | maxPool
  | avgPool
  | fullyConnected
  | deconvolution
  | power
  | permute
  | copy
  | split
  | concat
  /-- An operation of the fixed-function hardware. -/
  | hardware
  deriving DecidableEq, Repr, Inhabited

namespace StageKind

/-- Every kind, stubs first. -/
def all : List StageKind :=
  [stubConv, stubFullyConnected, stubDeconv, stubMaxPool, stubAvgPool, convolution, maxPool,
   avgPool, fullyConnected, deconvolution, power, permute, copy, split, concat, hardware]

/-- The code in the blob's stage table; stubs have none. -/
def code? : StageKind → Option UInt32
  | stubConv | stubFullyConnected | stubDeconv | stubMaxPool | stubAvgPool => none
  | convolution => some 0
  | maxPool => some 1
  | avgPool => some 2
  | fullyConnected => some 4
  | deconvolution => some 5
  | power => some 6
  | permute => some 7
  | copy => some 8
  | split => some 9
  | concat => some 10
  | hardware => some 38

/-- The kind behind a code. -/
def ofCode? (code : UInt32) : Option StageKind := all.find? fun k => k.code? == some code

def isStub (k : StageKind) : Bool := k.code?.isNone

/-- Whether a kind reads weights and biases as inputs 1 and 2. -/
def isWeightable : StageKind → Bool
  | stubConv | stubFullyConnected | stubDeconv | convolution | fullyConnected | deconvolution =>
    true
  | _ => false

def name : StageKind → String
  | stubConv => "StubConv"
  | stubFullyConnected => "StubFullyConnected"
  | stubDeconv => "StubDeconv"
  | stubMaxPool => "StubMaxPool"
  | stubAvgPool => "StubAvgPool"
  | convolution => "Convolution"
  | maxPool => "MaxPool"
  | avgPool => "AvgPool"
  | fullyConnected => "FullyConnected"
  | deconvolution => "Deconvolution"
  | power => "Power"
  | permute => "Permute"
  | copy => "Copy"
  | split => "Split"
  | concat => "Concat"
  | hardware => "MyriadXHwOp"

def ofName? (s : String) : Option StageKind := all.find? fun k => k.name == s

/-- A code names at most one kind, so reading a code gives back its kind. -/
theorem ofCode?_code {k : StageKind} {code : UInt32} (h : k.code? = some code) :
    ofCode? code = some k := by
  cases k <;> simp only [code?, Option.some.injEq, reduceCtorEq] at h <;> subst h <;> rfl

end StageKind

/-- What a hardware stage does. -/
inductive HardwareOp where
  | conv
  | maxPool
  | avgPool
  | fullyConnected
  deriving DecidableEq, Repr, Inhabited

namespace HardwareOp

/-- The code kept as an attribute and written to the blob. -/
def code : HardwareOp → Int32
  | conv => 0
  | maxPool => 1
  | avgPool => 2
  | fullyConnected => 3

def ofCode? (code : Int32) : Option HardwareOp :=
  if code = 0 then some conv
  else if code = 1 then some maxPool
  else if code = 2 then some avgPool
  else if code = 3 then some fullyConnected
  else none

/-- Whether the operation reads weights and biases. -/
def isWeightable : HardwareOp → Bool
  | conv | fullyConnected => true
  | maxPool | avgPool => false

def name : HardwareOp → String
  | conv => "Conv"
  | maxPool => "MaxPool"
  | avgPool => "AvgPool"
  | fullyConnected => "FullyConnected"

end HardwareOp

end NetLower
