/-
Power layers, which raise a scaled and shifted input to a power.
-/
import NetLower.Graph.Edit
import NetLower.Layer.Window

namespace NetLower.Layer

/-- Add the stage of a power layer. -/
def addPower (l : Layer) (g : Graph) (input output : DataId) : Outcome (StageId × Graph) := do
  if (← g.data input).desc.dims ≠ (← g.data output).desc.dims then l.fail .powerShape
  else
    let scale ← l.attrOr LayerAttr.toFloat "scale" F32.one
    let power ← l.attrOr LayerAttr.toFloat "power" F32.one
    let shift ← l.attrOr LayerAttr.toFloat "shift" F32.zero
    let attrs ← Attrs.empty.setAll
      [(.scale, .float scale), (.power, .float power), (.bias, .float shift)]
    g.addStage { name := l.name, kind := .power, attrs } [input] [output]

end NetLower.Layer
