/-
Every stub becomes a hardware stage, if it may, or the software stage for it.
Deconvolution has no hardware stage.
-/
import NetLower.Graph.Edit
import NetLower.Pass.Basic

namespace NetLower

/-- The hardware operation and the software kind for a stub. -/
def StageKind.lowering : StageKind → Outcome (Option HardwareOp × StageKind)
  | .stubConv => .ok (some .conv, .convolution)
  | .stubFullyConnected => .ok (some .fullyConnected, .fullyConnected)
  | .stubDeconv => .ok (none, .deconvolution)
  | .stubMaxPool => .ok (some .maxPool, .maxPool)
  | .stubAvgPool => .ok (some .avgPool, .avgPool)
  | other => .error (.fault (.notStub other))

namespace Graph

/-- Replace a stub by a real stage. -/
def lowerStage (g : Graph) (id : StageId) : Outcome (Graph × Bool) := do
  let stage ← g.stage id
  let tryHw ← stage.attrs.isOn .tryHw
  match ← stage.kind.lowering with
  | (some op, software) =>
    if tryHw then
      let g ← g.replaceStage id .hardware
      return (← g.setAttr id .hwOpKind (.int op.code), true)
    else return (← g.replaceStage id software, true)
  | (none, software) => return (← g.replaceStage id software, true)

/-- The stubs still in the graph. -/
def stubs (g : Graph) : List StageId :=
  g.liveStages.filterMap fun (id, s) => if s.kind.isStub then some id else none

end Graph

/-- Replace every stub. -/
def Pass.replaceStubs : Pass :=
  { name := "replace_stubs"
    phase := .lowering
    run := fun _ g => Pass.sweep g.stubs Graph.lowerStage g }

end NetLower
