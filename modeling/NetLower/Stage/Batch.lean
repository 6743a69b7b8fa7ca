/-
How a stage deals with the batch dimension.
-/
import NetLower.Stage.Slots

namespace NetLower

inductive BatchSupport where
  /-- The stage runs once for each item. -/
  | split
  /-- The stage merges the batch into another dimension itself. -/
  | fold
  deriving DecidableEq, Repr

namespace BatchSupport

def name : BatchSupport → String
  | split => "Split"
  | fold => "Fold"

end BatchSupport

/-- A stage with weights runs once for each item. -/
def Site.weightableBatch (s : Site) : Outcome (Report BatchSupport) := do
  let _ ← s.biasesUsage
  let _ ← s.input 0
  let _ ← s.output 0
  return ((Report.blank s).setInput 0 .split).setOutput 0 .split

/-- What a stage reports about the batch dimension. -/
def StageFamily.batch (f : StageFamily) (s : Site) : Outcome (Report BatchSupport) :=
  match f with
  | .stub => do
    match ← s.stubSort with
    | .weightable => s.weightableBatch
    | .pooling => return Report.blank s
  | .convolution | .fullyConnected => s.weightableBatch
  | .hardware => do
    if (← s.hardwareOp).isWeightable then s.weightableBatch else return Report.blank s
  | .pooling | .power | .permute | .copy | .split | .concat => .ok (Report.blank s)

end NetLower
