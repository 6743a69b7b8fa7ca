/-
Splitting batches.  A stage that runs once for each item is replaced by a split of
its input, a copy of the stage for every item, and a concatenation of the items'
results; weights and biases are shared by the copies.
-/
import NetLower.Graph.Edit
import NetLower.Pass.Basic
import NetLower.Stage.Batch

namespace NetLower

namespace Site

/-- The batch size of a stage that has to be split. -/
def splitBatch? (s : Site) : Outcome (Option Nat) := do
  match s.inputs, s.outputs with
  | input :: _, output :: _ =>
    let report ← s.kind.family.batch s
    if report.input? 0 = some .split ∧ report.output? 0 = some .split then
      let batch := (input.desc.dim? .n).getD 1
      let outputBatch := (output.desc.dim? .n).getD 1
      Outcome.require (batch = outputBatch) (.shape (.batchChange s.name batch outputBatch))
      return if 1 < batch then some batch else none
    else return none
  | _, _ => return none

end Site

namespace Graph

/-- The name of an item of a batch, and of the stage for it. -/
def itemName (name : String) (index : Nat) : String := name ++ "@batch=" ++ toString index

/-- Intermediates for the items of a batch, one for each index. -/
def addItems (name : String) (desc : Desc) : List Nat → Graph → Outcome (List DataId × Graph)
  | [], g => .ok ([], g)
  | index :: rest, g => do
    let (id, g) ← g.addData (itemName name index) desc .intermediate
    let (ids, g) ← addItems name desc rest g
    return (id :: ids, g)

/-- One intermediate for each item of a tensor. -/
def batchItems (g : Graph) (data : DataId) (batch : Nat) : Outcome (List DataId × Graph) := do
  let d ← g.data data
  addItems d.name (← d.desc.setDim .n 1) (List.range batch) g

/-- The axis attribute of stages that work along the batch. -/
def batchAxis : AttrValue := .int (Int32.ofNat Dim.n.digit)

/-- Add a stage that works along the batch. -/
def addBatchStage (g : Graph) (name : String) (kind : StageKind) (inputs outputs : List DataId) :
    Outcome Graph := do
  let (id, g) ← g.addStage { name, kind } inputs outputs
  g.setAttr id .axis batchAxis

/-- Replace a stage by one stage for each item of its batch. -/
def splitStage (g : Graph) (id : StageId) (batch : Nat) : Outcome Graph := do
  let stage ← g.stage id
  let input ← g.inputData id 0
  let output ← g.outputData id 0
  let extra := (← g.inputIds stage).drop 1
  let g ← g.removeStage id
  let (itemInputs, g) ← g.batchItems input batch
  let (itemOutputs, g) ← g.batchItems output batch
  let g ← g.addBatchStage (stage.name ++ "@split-batch") .split [input] itemInputs
  let g ← (itemInputs.zip itemOutputs).zipIdx.foldlM (fun g ((itemInput, itemOutput), index) => do
    let template := { stage.toStageTemplate with name := itemName stage.name index }
    let (_, g) ← g.addStage template (itemInput :: extra) [itemOutput]
    return g) g
  g.addBatchStage (stage.name ++ "@concat-batch") .concat itemOutputs [output]

/-- Split a stage if its batch asks for it. -/
def adjustBatch (g : Graph) (id : StageId) : Outcome (Graph × Bool) := do
  match ← (← g.site id).splitBatch? with
  | some batch => return (← g.splitStage id batch, true)
  | none => return (g, false)

end Graph

/-- Split the stages that cannot run a whole batch at once. -/
def Pass.adjustBatch : Pass :=
  { name := "adjust_batch"
    phase := .batch
    run := fun _ g => do Pass.sweep (← g.runOrder) Graph.adjustBatch g }

end NetLower
