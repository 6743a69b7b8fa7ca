/-
The two sections of a stage in the blob: its parameters, and the descriptors of
the buffers it works on.
-/
import NetLower.Stage.Slots
import NetLower.Stage.Slices

namespace NetLower

/-- The descriptor of a tensor's buffer: area, offset, element type, order, rank, and the sizes
and strides, innermost first. -/
def Data.descriptor (d : Data) : Outcome Bytes := do
  match d.strides with
  | none => throw (.codec (.noStrides d.name))
  | some strides =>
    let (area, offset) := match d.location with
      | some l => (l.area.code, l.offset)
      | none => (0, 0)
    let offset ← Bytes.ofSize offset
    let rank ← Bytes.ofSize d.desc.rank
    let sizes ← Bytes.ofSizes d.desc.memorySizes
    let strides ← Bytes.ofSizes strides
    return Bytes.ofUInt32 area ++ offset ++ Bytes.ofUInt32 d.desc.dtype.code
      ++ Bytes.ofUInt32 (UInt32.ofNat d.desc.order.code) ++ rank ++ sizes ++ strides

namespace Site

/-- The descriptors of all inputs, then of all outputs. -/
def slotBytes (s : Site) : Outcome Bytes :=
  (s.inputs ++ s.outputs).foldlM (fun bytes d => return bytes ++ (← d.descriptor)) #[]

/-- Slot descriptors, group size and whether there are biases. -/
def weightableBytes (s : Site) : Outcome Bytes := do
  let slots ← s.slotBytes
  let group ← s.attrs.getIntOr .groupSize 1
  let biased := (← s.input 2).usage = .const
  return slots ++ Bytes.ofInt32 group ++ Bytes.ofUInt32 (if biased then 1 else 0)

/-- Axis, number of slices and their offsets. -/
def sliceBytes (axis : Dim) (offsets : List Nat) : Outcome Bytes := do
  let count ← Bytes.ofSize offsets.length
  let offsets ← Bytes.ofSizes offsets
  return Bytes.ofUInt32 (UInt32.ofNat axis.digit) ++ count ++ offsets

/-- For every output memory position, the input memory position of the same dimension. -/
def permutation (s : Site) : Outcome (List Nat) := do
  let input := (← s.input 0).desc.order
  let output := (← s.output 0).desc.order
  output.memory.mapM fun x =>
    match input.position? x with
    | some pos => .ok pos
    | none => .error (.shape (.permuteLacks s.name input x))

end Site

/-- The parameters of a stage. -/
def StageFamily.params (f : StageFamily) (s : Site) : Outcome Bytes :=
  match f with
  | .stub => s.stubLeft
  | .convolution => do
    let window ← s.attrs.window
    let group ← s.attrs.getIntOr .groupSize 1
    return window.bytes ++ Bytes.ofInt32 group
  | .fullyConnected => do
    let input := (← s.input 0).desc
    let batch := (input.dim? .n).getD 1
    let channels := ((← s.output 0).desc.dim? .c).getD 1
    let size ← Bytes.ofSize ((← input.total) / batch)
    let channels ← Bytes.ofSize channels
    return size ++ channels
  | .pooling => do
    let window ← s.attrs.window
    let excludePad ← s.attrs.isOn .excludePad
    return window.bytes ++ Bytes.ofUInt32 (if excludePad then 1 else 0)
  | .hardware => do
    let op ← s.hardwareOp
    if op = .fullyConnected then return Bytes.ofInt32 op.code
    else
      let window ← s.attrs.window
      let group ← s.attrs.getIntOr .groupSize 1
      return Bytes.ofInt32 op.code ++ window.bytes ++ Bytes.ofInt32 group
  | .power => do
    let bias ← s.attrs.getFloat .bias
    let scale ← s.attrs.getFloat .scale
    let power ← s.attrs.getFloat .power
    return Bytes.ofF32 bias ++ Bytes.ofF32 scale ++ Bytes.ofF32 power
  | .permute => do Bytes.ofSizes (← s.permutation)
  | .copy => .ok #[]
  | .split => do
    let axis ← s.axis
    Site.sliceBytes axis (← s.splitOffsets)
  | .concat => do
    let axis ← s.axis
    Site.sliceBytes axis (← s.concatOffsets)

/-- The buffer descriptors of a stage. -/
def StageFamily.dataBytes (f : StageFamily) (s : Site) : Outcome Bytes :=
  match f with
  | .stub => s.stubLeft
  | .convolution | .fullyConnected => s.weightableBytes
  | .hardware => do
    if (← s.hardwareOp).isWeightable then s.weightableBytes else s.slotBytes
  | .pooling | .power | .permute | .copy | .split | .concat => s.slotBytes

end NetLower
