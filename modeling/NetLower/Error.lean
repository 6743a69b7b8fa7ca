/-
Why an operation has no result.  Every cause is a constructor that carries what
its message needs; the messages themselves are in `NetLower.Error.Message`.

Causes come in families: faulty requests (`Error` apart from `fault`), which any
caller may run into, and `Fault`s, which mean that a size left the range of
64-bit words or that a promise between parts of the compiler was broken.
-/
import NetLower.Attr.Key
import NetLower.Dim
import NetLower.Graph.Id
import NetLower.Stage.Kind
import NetLower.Stage.Window
import NetLower.Tensor.ElementType
import NetLower.Tensor.Usage

namespace NetLower

/-- A tensor shape that cannot be handled. -/
inductive ShapeError where
  | orderCode (code : Nat)
  | repeatedDim (code : Nat) (dim : Dim)
  | rank (rank : Nat)
  | zeroSize (dims : List Nat)
  | noDim (dim : Dim)
  | orderMismatch (order : Order) (rank : Nat)
  | constTooShort (name : String) (held needed : Nat)
  | duplicateTooShort (name : String) (held needed : Nat)
  | outputNotFlat (stage : String)
  | permuteChanges (stage : String) (input output : List Nat)
  | permuteLacks (stage : String) (order : Order) (dim : Dim)
  | copyChanges (stage : String)
  | noAxis (stage : String) (axis : Dim)
  | sliceMisfit (stage : String) (part whole : List Nat) (axis : Dim)
  | sliceCover (stage : String) (covered total : Nat) (axis : Dim)
  | batchChange (stage : String) (input output : Nat)
  deriving DecidableEq

/-- A graph that does not hold together. -/
inductive GraphError where
  | needsConstructor (usage : Usage)
  | notDuplicable (name : String) (usage : Usage)
  | notConst (name : String)
  | otherLayout (name : String)
  | noData (id : DataId)
  | noStage (id : StageId)
  | noEdge (id : EdgeId)
  | noStageNamed (name : String)
  | hasProducer (name : String)
  | notWritable (usage : Usage) (name : String)
  | edgeNotInput (id : EdgeId)
  | edgeNotOutput (id : EdgeId)
  | noInput (stage : String) (slot : Nat)
  | noOutput (stage : String) (slot : Nat)
  | cycle (id : StageId)
  | permuteSlots (stage : String)
  | copySlots (stage : String)
  | splitSlots (stage : String)
  | concatSlots (stage : String)
  deriving DecidableEq

/-- An attribute that is missing, of the wrong kind or out of range. -/
inductive AttrError where
  | wrongKind (key : AttrKey) (got : AttrKind)
  | alreadySet (key : AttrKey)
  | missing (key : AttrKey)
  | notInt (key : AttrKey) (value : AttrValue)
  | notFloat (key : AttrKey) (value : AttrValue)
  | notBool (key : AttrKey) (value : AttrValue)
  | stillWindow (stage : String)
  | groupSize (stage : String) (size : Int32)
  | axis (stage : String) (digit : Int32)
  | hardwareOp (stage : String) (code : Int32)
  deriving DecidableEq

/-- A stage whose slots carry the wrong tensors. -/
inductive SlotError where
  | count (inputs outputs gotInputs gotOutputs : Nat)
  | inputType (slot : Nat) (data : String) (got expected : ElementType)
  | outputType (slot : Nat) (data : String) (got expected : ElementType)
  | inputUsage (slot : Nat) (data : String) (got : Usage) (allowed : List Usage)
  deriving DecidableEq

/-- An option that is unknown or has a bad value. -/
inductive ConfigError where
  | unknownOption (key : String)
  | notSwitch (key value : String)
  deriving DecidableEq

/-- Bytes that cannot be written or read. -/
inductive CodecError where
  | shortHeader (length : Nat)
  | magic (found : UInt32)
  | version (found : UInt32)
  | wideValue (value : Nat)
  | noStrides (data : String)
  | readPastEnd (count position length : Nat)
  | strideCount (given rank : Nat)
  | fewValues (needed held : Nat)
  | outsideBuffer (element : Nat)
  | constSectionEnd (stop length : Nat)
  | stageTable
  | noContent (data : String)
  | constOverflow (data : String)
  | wideSection (what : String) (size : Nat)
  deriving DecidableEq

/-- A graph that the compiler cannot finish. -/
inductive LoweringError where
  | dataOrder (stage data : String) (found expected : Order)
  | notCanonical (stage data : String)
  | hardwareLimits (stage : String)
  | noStrides (data : String)
  /-- Reported by a pass that is not one of the library's own. -/
  | custom (message : String)
  deriving DecidableEq

/-- A file that cannot be read or written. -/
inductive FileError where
  | notFound
  | permissionDenied
  | isDirectory
  | notDirectory
  /-- A name or a whole path is too long. -/
  | nameTooLong
  /-- The bytes are not text. -/
  | notText
  | other (message : String)
  deriving DecidableEq

/-- A type a layer attribute can be read as. -/
inductive AttrReading where
  | float
  | int
  | string
  | ints
  deriving DecidableEq, Repr

/-- A network description that is not well formed. -/
inductive StructureError where
  | tensorTwice (tensor : String)
  | shape (tensor : String) (shape : List Nat)
  | noData (tensor : String)
  | valueCount (tensor : String) (held needed : Nat)
  | layerTwice (layer : String)
  | notWeights (layer tensor : String)
  deriving DecidableEq

/-- A network description that cannot be used. -/
inductive NetworkError where
  | file (cause : FileError)
  /-- The text is not JSON, or not a network in JSON. -/
  | json
  | oldVersion (version : Nat)
  | newVersion (version : Nat)
  | malformed (cause : StructureError)
  | noTensor (name : String)
  | noAttribute (layer name : String)
  | attributeType (expected : AttrReading)
  deriving DecidableEq

/-- The two operations that move a window with weights. -/
inductive ConvKind where
  | convolution
  | deconvolution
  deriving DecidableEq, Repr

/-- A layer that cannot become a stage. -/
inductive LayerError where
  | scaleFactor (value : F32)
  | slotCount (inputs outputs : Nat)
  | listLength (list : String) (given axes : Nat)
  | listRange (list : String) (value : Int)
  | window (window : Window)
  | convRank (kind : ConvKind)
  | convOutputRank (kind : ConvKind)
  | group (value : Int)
  | groupSplit (kind : ConvKind) (channels : Nat) (groups : Int32)
  | noWeights
  | weightsMissing (name : String)
  | noChannels (dims : List Nat)
  | notBatched
  | outputNotFlat
  | batchMismatch (input output : List Nat)
  | poolRank (input output : List Nat)
  | poolChannels
  | poolMethod (method : String)
  | powerShape
  deriving DecidableEq

/-- A broken promise inside the compiler, or a size beyond 64-bit words. -/
inductive Fault where
  | multiply
  | add
  | shift
  | capacity
  | stubLeft (stage : String) (kind : StageKind)
  | notStub (kind : StageKind)
  | weightsUsage (stage : String) (usage : Usage)
  | biasesUsage (stage : String) (usage : Usage)
  | stubWritten (stage : String)
  deriving DecidableEq

/-- Why an operation has no result. -/
inductive Error where
  | lowering (cause : LoweringError)
  | graph (cause : GraphError)
  | attr (cause : AttrError)
  /-- A layer of a type that no stage implements. -/
  | unsupported (layer type : String)
  | shape (cause : ShapeError)
  | slots (stage : String) (cause : SlotError)
  | config (cause : ConfigError)
  | codec (cause : CodecError)
  | network (cause : NetworkError)
  | layer (layer : String) (cause : LayerError)
  | fault (cause : Fault)
  deriving DecidableEq

/-- The result of an operation, or why there is none. -/
abbrev Outcome := Except Error

end NetLower
