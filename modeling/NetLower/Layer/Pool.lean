/-
Pooling layers.
-/
import NetLower.Layer.Convolve

namespace NetLower.Layer

/-- The stub for the way a layer pools. -/
def poolStub (l : Layer) : Outcome StageKind := do
  match ← l.attrOr LayerAttr.toText "pool_method" "max" with
  | "max" => return .stubMaxPool
  | "avg" => return .stubAvgPool
  | other => l.fail (.poolMethod other)

/-- Whether padding does not count for averages. -/
def excludesPad (l : Layer) : Outcome Bool := do
  return (← l.attrOr LayerAttr.toText "exclude_pad" "false") == "true"

/-- Add the stub of a pooling layer. -/
def addPool (l : Layer) (config : Config) (g : Graph) (input output : DataId) :
    Outcome (StageId × Graph) := do
  let inputDesc := (← g.data input).desc
  let outputDesc := (← g.data output).desc
  let rank := inputDesc.rank
  if rank < 3 ∨ 5 < rank ∨ outputDesc.rank ≠ rank then
    l.fail (.poolRank inputDesc.dims outputDesc.dims)
  else
    let inputChannels ← l.channels inputDesc
    let outputChannels ← l.channels outputDesc
    if inputChannels ≠ outputChannels then l.fail .poolChannels
    else
      let kind ← l.poolStub
      let excludePad ← l.excludesPad
      let window ← l.window (spatialAxes rank) false
      let attrs ← Attrs.empty.setAll (Attrs.ofWindow window (rank == 5) ++
        (if kind = .stubAvgPool then [(.excludePad, .bool excludePad)] else []) ++
        [(.tryHw, .bool (config.allowsWindow l.name window rank))])
      g.addStage { name := l.name, kind, attrs } [input] [output]

end NetLower.Layer
