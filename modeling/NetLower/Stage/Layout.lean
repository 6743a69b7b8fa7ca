/-
What a stage asks of the memory order and the strides of its tensors, and how it
settles the layout of its weights.
-/
import NetLower.Graph.Edit
import NetLower.Stage.Slots

namespace NetLower

namespace Site

/-- An order for input 0 and output 0. -/
def mainOrder (s : Site) (order : Order) : Outcome (Report Order) := do
  let _ ← s.input 0
  let _ ← s.output 0
  return ((Report.blank s).setInput 0 order).setOutput 0 order

/-- The order of input 0 for every output with the same dimensions. -/
def followOrder (s : Site) : Outcome (Report Order) := do
  let order := (← s.input 0).desc.order
  return { (Report.blank s : Report Order) with
    outputs := s.outputs.map fun d => if d.desc.order.sameDims order then some order else none }

end Site

/-- The orders a stage asks for. -/
def StageFamily.orders (f : StageFamily) (s : Site) : Outcome (Report Order) :=
  match f with
  | .stub => s.stubLeft
  | .convolution | .pooling => do
    let rank := (← s.input 0).desc.rank
    s.mainOrder (← Order.interleaved rank)
  | .fullyConnected => do
    let rank := (← s.input 0).desc.rank
    let order ← Order.canonical rank
    let _ ← s.output 0
    return ((Report.blank s).setInput 0 order).setOutput 0 Order.nc
  | .hardware => do
    let input ← Order.canonical (← s.input 0).desc.rank
    let output ← Order.canonical (← s.output 0).desc.rank
    return ((Report.blank s).setInput 0 input).setOutput 0 output
  | .power | .copy | .split => s.followOrder
  | .permute => .ok (Report.blank s)
  | .concat => do
    let order := (← s.input 0).desc.order
    let _ ← s.output 0
    let report : Report Order := { Report.blank s with inputs := s.inputs.map fun _ => some order }
    return report.setOutput 0 order

/-- A dense tensor whose rows start at multiples of 16 bytes. -/
def alignedRows : StrideReq := StrideReq.compact.set 1 .aligned

/-- The strides a stage asks for. -/
def StageFamily.strides (f : StageFamily) (s : Site) : Outcome (Report StrideReq) :=
  match f with
  | .stub => s.stubLeft
  | .copy => .ok (Report.blank s)
  | .hardware => do
    let dense := Report.uniform s StrideReq.compact
    if (← s.hardwareOp) = .fullyConnected then return dense
    else
      let _ ← s.input 0
      let _ ← s.output 0
      return (dense.setInput 0 alignedRows).setOutput 0 alignedRows
  | _ => .ok (Report.uniform s StrideReq.compact)

namespace Graph

/-- Bring the constant at an input slot into an order. A constant with other readers is
duplicated first. -/
def reorderConst (g : Graph) (id : StageId) (slot : Nat) (order : Order) : Outcome Graph := do
  let data ← g.inputData id slot
  let d ← g.data data
  if d.usage ≠ .const ∨ d.desc.order = order then return g
  else if d.consumers.length = 1 then g.setDataOrder data order
  else
    let desc ← d.desc.setOrder order
    let s ← g.stage id
    match s.inputs[slot]? with
    | none => throw (.graph (.noInput s.name slot))
    | some edge =>
      let (copy, g) ← g.duplicate data ("@" ++ order.text) desc
      g.replaceInput edge copy

/-- Let a stage settle what is left of its layout: convolutions want their weights with the
channel innermost, the hardware wants them in canonical order. -/
def finalizeLayout (g : Graph) (id : StageId) (f : StageFamily) : Outcome Graph := do
  let weightsRank : Outcome Nat := do
    return (← g.data (← g.inputData id 1)).desc.rank
  match f with
  | .stub => (← g.site id).stubLeft
  | .convolution => g.reorderConst id 1 (← Order.interleaved (← weightsRank))
  | .hardware =>
    if (← (← g.site id).hardwareOp).isWeightable then
      g.reorderConst id 1 (← Order.canonical (← weightsRank))
    else return g
  | _ => return g

end Graph

end NetLower
