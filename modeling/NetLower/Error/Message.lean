/-
The wording of every error.
-/
import NetLower.Error
import NetLower.Text.Show

namespace NetLower

open Text (bracketed hex hexWord sizes)

namespace ShapeError

def message : ShapeError → String
  | orderCode code => s!"Invalid dims order code {hex code}"
  | repeatedDim code dim => s!"Dims order code {hex code} repeats {dim.name}"
  | rank given => s!"Unsupported tensor rank {given}"
  | zeroSize dims => s!"Zero-sized dimension in {sizes dims}"
  | noDim dim => s!"Tensor has no {dim.name} dimension"
  | orderMismatch order given => s!"Order {order.text} is incompatible with rank {given}"
  | constTooShort name held needed =>
    s!"Constant '{name}' holds {held} values but its descriptor needs {needed}"
  | duplicateTooShort name held needed =>
    s!"Constant '{name}' holds {held} values, duplicate needs {needed}"
  | outputNotFlat stage => s!"Fully-connected stage '{stage}' must produce a 2-D output"
  | permuteChanges stage input output =>
    s!"Permute '{stage}' changes the tensor: {sizes input} -> {sizes output}"
  | permuteLacks stage order dim => s!"Permute '{stage}': {order.text} has no {dim.name}"
  | copyChanges stage => s!"Copy '{stage}' changes the descriptor"
  | noAxis stage axis => s!"Stage '{stage}': tensor has no {axis.name}"
  | sliceMisfit stage part whole axis =>
    s!"Stage '{stage}': slice {sizes part} does not fit {sizes whole} along {axis.name}"
  | sliceCover stage covered total axis =>
    s!"Stage '{stage}': slices cover {covered} of {total} along {axis.name}"
  | batchChange stage input output => s!"Stage '{stage}' maps batch {input} to {output}"

end ShapeError

namespace GraphError

def message : GraphError → String
  | needsConstructor usage => s!"{usage.name} data must be created with its dedicated constructor"
  | notDuplicable name usage => s!"Only constants can be duplicated, '{name}' is {usage.name}"
  | notConst name => s!"Data '{name}' is not a constant"
  | otherLayout name => s!"Data '{name}' already exists with another layout"
  | noData id => s!"Data {id.text} not found"
  | noStage id => s!"Stage {id.text} not found"
  | noEdge id => s!"Edge {id.text} not found"
  | noStageNamed name => s!"Stage '{name}' not found"
  | hasProducer name => s!"Data '{name}' already has a producer"
  | notWritable usage name => s!"{usage.name} data '{name}' cannot be a stage output"
  | edgeNotInput id => s!"Edge {id.text} is not an input"
  | edgeNotOutput id => s!"Edge {id.text} is not an output"
  | noInput stage slot => s!"Stage '{stage}' has no input {slot}"
  | noOutput stage slot => s!"Stage '{stage}' has no output {slot}"
  | cycle id => s!"Cycle through stage {id.text}"
  | permuteSlots stage => s!"Permute '{stage}' must have one input and one output"
  | copySlots stage => s!"Copy '{stage}' must have one input and one output"
  | splitSlots stage => s!"Split '{stage}' needs one input and at least one output"
  | concatSlots stage => s!"Concat '{stage}' needs at least one input and one output"

end GraphError

namespace AttrError

def message : AttrError → String
  | wrongKind key got => s!"Attribute {key.name} expects {key.kind.name}, got {got.name}"
  | alreadySet key => s!"Attribute {key.name} is already set"
  | missing key => s!"Missing attribute: {key.name}"
  | notInt key value => s!"Attribute {key.name} is not an int: {value.text}"
  | notFloat key value => s!"Attribute {key.name} is not a float: {value.text}"
  | notBool key value => s!"Attribute {key.name} is not a bool: {value.text}"
  | stillWindow stage => s!"Stage '{stage}' has a non-positive kernel or stride"
  | groupSize stage size => s!"Stage '{stage}' has group size {size.toInt}"
  | axis stage digit => s!"Stage '{stage}' has invalid axis {digit.toInt}"
  | hardwareOp stage code => s!"Stage '{stage}' has unknown hardware operation {code.toInt}"

end AttrError

namespace SlotError

def message : SlotError → String
  | count inputs outputs gotInputs gotOutputs =>
    s!"expected {inputs} inputs and {outputs} outputs, got {gotInputs} and {gotOutputs}"
  | inputType slot data got expected =>
    s!"input {slot} ('{data}') is {got.name}, expected {expected.name}"
  | outputType slot data got expected =>
    s!"output {slot} ('{data}') is {got.name}, expected {expected.name}"
  | inputUsage slot data got allowed =>
    let choices := bracketed (allowed.map Usage.name)
    s!"input {slot} ('{data}') is {got.name} data, expected one of {choices}"

end SlotError

namespace ConfigError

def message : ConfigError → String
  | unknownOption key => s!"Unknown option '{key}'"
  | notSwitch key value => s!"Option '{key}' expects YES or NO, got '{value}'"

end ConfigError

namespace CodecError

def message : CodecError → String
  | shortHeader length => s!"Blob of {length} bytes is shorter than its header"
  | magic found => s!"Bad blob magic {hexWord found.toNat}"
  | version found => s!"Unsupported blob version {found.toNat}"
  | wideValue value => s!"Value {value} does not fit in 32 bits"
  | noStrides data => s!"Data '{data}' has no final strides"
  | readPastEnd count position length =>
    s!"Read of {count} bytes at offset {position} past end of {length}-byte blob"
  | strideCount given rank => s!"{given} strides given for a rank-{rank} tensor"
  | fewValues needed held => s!"Tensor needs {needed} values, got {held}"
  | outsideBuffer element => s!"Element {element} lands outside the buffer"
  | constSectionEnd stop length =>
    s!"Constant section ends at {stop} but the blob has {length} bytes"
  | stageTable => "Stage table out of bounds"
  | noContent data => s!"Blob data '{data}' has no content"
  | constOverflow data => s!"Constant '{data}' overflows its section"
  | wideSection what size => s!"{what} of {size} bytes exceeds u32"

end CodecError

namespace LoweringError

def message : LoweringError → String
  | dataOrder stage data found expected =>
    s!"Stage '{stage}': data '{data}' is {found.text}, expected {expected.text}"
  | notCanonical stage data => s!"Fully-connected stage '{stage}' reads non-canonical '{data}'"
  | hardwareLimits stage => s!"Stage '{stage}' exceeds hardware kernel limits"
  | noStrides data => s!"Data '{data}' has no final strides"
  | custom text => text

end LoweringError

namespace FileError

def message : FileError → String
  | notFound => "No such file or directory (os error 2)"
  | permissionDenied => "Permission denied (os error 13)"
  | isDirectory => "Is a directory (os error 21)"
  | notDirectory => "Not a directory (os error 20)"
  | nameTooLong => "File name too long (os error 36)"
  | notText => "stream did not contain valid UTF-8"
  | other text => text

end FileError

namespace AttrReading

/-- The name of the type in messages. -/
def typeName : AttrReading → String
  | float => "f32"
  | int => "i64"
  | string => "alloc::string::String"
  | ints => "alloc::vec::Vec<i64>"

/-- What is said of a value that does not have the type. -/
def refusal : AttrReading → String
  | float => "Not a float"
  | int => "Not an int"
  | string => "Not a string"
  | ints => "Not an int array"

end AttrReading

namespace StructureError

def message : StructureError → String
  | tensorTwice tensor => s!"Tensor '{tensor}' is declared twice"
  | shape tensor dims => s!"Tensor '{tensor}' has invalid shape {sizes dims}"
  | noData tensor => s!"Weight tensor '{tensor}' has no data"
  | valueCount tensor held needed =>
    s!"Weight tensor '{tensor}' holds {held} values, shape needs {needed}"
  | layerTwice layer => s!"Layer '{layer}' is declared twice"
  | notWeights layer tensor => s!"Layer '{layer}' uses non-constant tensor '{tensor}' as weights"

end StructureError

namespace NetworkError

def message : NetworkError → String
  | file cause => s!"Failed to read network file: {cause.message}"
  | json => "Failed to parse network JSON"
  | oldVersion version => s!"Deprecated IR version: {version}"
  | newVersion version => s!"Cannot parse future versions: {version}"
  | malformed cause => s!"Invalid graph structure: {cause.message}"
  | noTensor name => s!"Missing tensor: {name}"
  | noAttribute layer name => s!"Layer '{layer}' is missing attribute '{name}'"
  | attributeType expected =>
    s!"Type mismatch: expected {expected.typeName}, got {expected.refusal}"

end NetworkError

/-- The values of an axis triple in brackets. -/
def Axes.text (a : Axes Int32) : String := bracketed (a.toList.map fun v => toString v.toInt)

/-- A window with its fields by name. -/
def Window.text (w : Window) : String :=
  "Window \x7b kernel: " ++ w.kernel.text ++ ", stride: " ++ w.stride.text ++
    ", pads_begin: " ++ w.padsBegin.text ++ ", pads_end: " ++ w.padsEnd.text ++
    ", dilation: " ++ w.dilation.text ++ " \x7d"

namespace ConvKind

def name : ConvKind → String
  | convolution => "Convolution"
  | deconvolution => "Deconvolution"

/-- The channels that have to split into groups. -/
def groupedChannels : ConvKind → String
  | convolution => "input"
  | deconvolution => "output"

end ConvKind

namespace LayerError

def message : LayerError → String
  | scaleFactor value =>
    s!"scale_factor must be finite and positive, got {Notation.display.text value}"
  | slotCount inputs outputs => s!"expects 1 input and 1 output, got {inputs} and {outputs}"
  | listLength list given axes => s!"'{list}' lists {given} values for {axes} axes"
  | listRange list value => s!"'{list}' value {value} is out of range"
  | window given => s!"invalid window {given.text}"
  | convRank kind => s!"{kind.name} supports only 3D or 4D or 5D input"
  | convOutputRank kind => s!"{kind.name} supports only same num dims in input and output"
  | group value => s!"invalid group {value}"
  | groupSplit kind channels groups =>
    s!"{channels} {kind.groupedChannels} channels do not split into {groups.toInt} groups"
  | noWeights => "has no weights"
  | weightsMissing name => s!"weights '{name}' not found"
  | noChannels dims => s!"tensor {sizes dims} has no channels"
  | notBatched => "FullyConnected needs a batched input"
  | outputNotFlat => "FullyConnected supports only 2D output"
  | batchMismatch input output =>
    s!"batch mismatch between input {sizes input} and output {sizes output}"
  | poolRank input output =>
    s!"Pooling supports only same-rank 3D, 4D or 5D tensors, got {sizes input} -> {sizes output}"
  | poolChannels => "Pooling cannot change the channel count"
  | poolMethod method => s!"unknown pool_method '{method}'"
  | powerShape => "Power cannot change the tensor shape"

end LayerError

namespace Fault

def message : Fault → String
  | multiply => "attempt to multiply with overflow"
  | add => "attempt to add with overflow"
  | shift => "attempt to shift left with overflow"
  | capacity => "capacity overflow"
  | stubLeft stage kind => s!"Stub stage '{stage}' ({kind.name}) must be replaced with a real stage"
  | notStub kind => s!"internal error: entered unreachable code: {kind.name} is not a stub stage"
  | weightsUsage stage usage => s!"Stage '{stage}': weights must be constant, got {usage.name}"
  | biasesUsage stage usage =>
    s!"Stage '{stage}': biases must be constant or absent, got {usage.name}"
  | stubWritten stage => s!"Stub stage '{stage}' reached the blob writer"

end Fault

namespace Error

def message : Error → String
  | lowering cause => s!"Compilation error: {cause.message}"
  | graph cause => s!"Invalid graph structure: {cause.message}"
  | attr cause => s!"Attribute error: {cause.message}"
  | unsupported name type =>
    s!"Unsupported operation: Layer '{name}' has unsupported type '{type}'"
  | shape cause => s!"Shape error: {cause.message}"
  | slots stage cause => s!"Type mismatch in stage '{stage}': {cause.message}"
  | config cause => s!"Configuration error: {cause.message}"
  | codec cause => s!"Serialization error: {cause.message}"
  | network cause => cause.message
  | layer name cause => s!"Layer '{name}': {cause.message}"
  | fault cause => cause.message

end Error

end NetLower
