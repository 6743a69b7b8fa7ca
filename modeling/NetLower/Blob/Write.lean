/-
Writing a finished graph as a blob: the stages in running order, and behind them,
at a multiple of 64 bytes, every constant at its place.
-/
import NetLower.Blob.Basic
import NetLower.Graph.Order
import NetLower.Pass.Memory
import NetLower.Stage.Section
import NetLower.Tensor.Encode

namespace NetLower

namespace Graph

/-- The entry of a stage in the table. -/
def stageRecord (g : Graph) (id : StageId) : Outcome StageRecord := do
  let site ← g.site id
  match site.kind.code? with
  | none => throw (.fault (.stubWritten site.name))
  | some code =>
    let params ← site.kind.family.params site
    let data ← site.kind.family.dataBytes site
    return { code, params, data }

/-- The stage table for stages in the given order. -/
def tableBytes (g : Graph) (order : List StageId) : Outcome Bytes :=
  order.foldlM (fun bytes id => do return bytes ++ (← (← g.stageRecord id).bytes)) #[]

/-- Where a tensor ends in its area, if it has a place. -/
def dataEnd? (d : Data) : Outcome (Option (MemoryArea × Nat)) := do
  match d.location, d.strides with
  | some location, some strides =>
    let size ← d.desc.byteSize strides
    return some (location.area, ← Size.add location.offset size)
  | _, _ => return none

/-- How far the tensors reach in each area. -/
def extents (g : Graph) : Outcome AreaSizes :=
  g.datas.foldlM (fun sizes d => do
    match ← dataEnd? d with
    | some (area, stop) => return sizes.set area (max (sizes.get area) stop)
    | none => return sizes) {}

/-- The place and the bytes of a tensor among constants that take up `size` bytes, if it is one
of them. -/
def constRun (size : Nat) (d : Data) : Outcome (Option Run) := do
  match d.location with
  | some { area := .blob, offset } =>
    match d.content? with
    | none => throw (.codec (.noContent d.name))
    | some content =>
      let run : Run := { offset, bytes := ← d.desc.encode content (d.strides.getD []) }
      run.checkWithin size (.codec (.constOverflow d.name))
      return some run
  | _ => return none

/-- The places and bytes of all constants. -/
def constRuns (g : Graph) (size : Nat) : Outcome (List Run) := do
  let size ← Bytes.checkSize size
  return (← g.datas.toList.mapM (constRun size)).filterMap id

/-- A size as a field of the header. -/
def headerSize (what : String) (size : Nat) : Outcome UInt32 :=
  if size < UInt32.size then .ok (UInt32.ofNat size) else .error (.codec (.wideSection what size))

/-- The blob of a finished graph. -/
def blob (g : Graph) : Outcome Blob := do
  let order ← g.runOrder
  let table ← g.tableBytes order
  let extents ← g.extents
  let runs ← g.constRuns extents.blob
  let constOffset ← Size.alignUp (Header.size + table.size) dataAlignment
  let header : Header :=
    { stageCount := ← headerSize "Stage count" order.length
      constOffset := ← headerSize "Stage table" constOffset
      constSize := ← headerSize "Constant section" extents.blob
      bssSize := ← headerSize "BSS" extents.bss
      inputSize := ← headerSize "Input area" extents.input
      outputSize := ← headerSize "Output area" extents.output }
  let front := header.bytes ++ table
  let padding : Bytes := Array.replicate (constOffset - front.size) 0
  return { header, bytes := front ++ padding ++ Run.lay extents.blob runs }

end Graph

end NetLower
