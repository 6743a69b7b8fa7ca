/-
Scale propagation.  The stages are visited in running order, and the scale that
every tensor carries is kept along the way.  Where a stage needs another scale at
an input, an affine power is put in between; a stage with a scale of its own and
unscaled inputs takes its scale in, and every other stage hands on what it gets.
Constants are replaced by scaled ones, and an output of the network that ended up
scaled is scaled back by a last affine power.
-/
import NetLower.Graph.Edit
import NetLower.Pass.Basic
import NetLower.Stage.Scale

namespace NetLower

/-- The scales of tensors, youngest entry first. -/
abbrev Scales := List (DataId × F32)

namespace Scales

/-- The scale of a tensor; 1 where nothing is known. -/
def get (scales : Scales) (id : DataId) : F32 := (scales.lookup id).getD F32.one

def set (scales : Scales) (id : DataId) (scale : F32) : Scales := (id, scale) :: scales

end Scales

namespace Graph

/-- The attributes of an affine power that multiplies by a factor. -/
def rescaleAttrs (factor : F32) : Outcome Attrs :=
  Attrs.empty.setAll [(.scale, .float factor), (.power, .float F32.one), (.bias, .float F32.zero)]

/-- Add an affine power that multiplies by a factor. -/
def addRescale (g : Graph) (name : String) (factor : F32) (source target : DataId) :
    Outcome Graph := do
  let attrs ← rescaleAttrs factor
  let (_, g) ← g.addStage { name, kind := .power, attrs } [source] [target]
  return g

/-- Put an affine power between a tensor and one of its readers. -/
def insertRescale (g : Graph) (data : DataId) (edge : EdgeId) (factor : F32) (suffix : String) :
    Outcome (DataId × Graph) := do
  let name := (← g.data data).name ++ suffix
  let (rescaled, g) ← g.addLike data suffix
  let g ← g.addRescale name factor data rescaled
  return (rescaled, ← g.replaceInput edge rescaled)

/-- The scales of the tensors a stage reads, by slot. -/
def inputScales (g : Graph) (scales : Scales) (id : StageId) : Outcome (List F32) := do
  return (← g.inputIds (← g.stage id)).map scales.get

/-- Ask a stage about scales and keep what it did to its attributes. -/
def askScale (g : Graph) (id : StageId) (scales : List F32) (step : ScaleStep) :
    Outcome (Report F32 × Graph) := do
  let site ← g.site id
  let (report, attrs) ← site.kind.family.scale site scales step
  return (report, g.setAttrs id attrs)

/-- Rescale one input of a stage to what the stage needs there. -/
def meetScale (state : Scales × Graph) (edge : EdgeId) (wanted : Option F32) :
    Outcome ((Scales × Graph) × Bool) := do
  let (scales, g) := state
  let data := (← g.edge edge).data
  match (← g.data data).usage, wanted with
  | .const, _ | .fake, _ | _, none => return (state, false)
  | _, some wanted =>
    let current := scales.get data
    if wanted.numEq current then return (state, false)
    else
      let (rescaled, g) ← g.insertRescale data edge (wanted / current) "@rescale"
      return ((scales.set rescaled wanted, g), true)

/-- Replace a constant input of a stage by a scaled one, if the stage says so. -/
def scaleConst (g : Graph) (edge : EdgeId) (scale : Option F32) : Outcome (Graph × Bool) := do
  let data := (← g.edge edge).data
  match (← g.data data).usage, scale with
  | .const, some scale =>
    if scale.numEq F32.one then return (g, false)
    else
      let (scaled, g) ← g.scaledConst data scale
      return (← g.replaceInput edge scaled, true)
  | _, _ => return (g, false)

/-- The scale a stage asks for; 1 where it asks for none. -/
def scaleHint (g : Graph) (id : StageId) : Outcome F32 := do
  let attrs := (← g.stage id).attrs
  if attrs.has .scaleFactor then attrs.getFloat .scaleFactor else return F32.one

/-- Pass the scales of the inputs of a stage on to its outputs. -/
def scaleStage (state : Scales × Graph) (id : StageId) : Outcome ((Scales × Graph) × Bool) := do
  let (scales, g) := state
  let edges := (← g.stage id).inputs
  -- Bring the inputs to the scales the stage needs.
  let (required, g) ← g.askScale id (← g.inputScales scales id) .check
  let ((scales, g), rescaled) ←
    Pass.sweepWith (edges.zip required.inputs) (fun state (edge, wanted) =>
      meetScale state edge wanted) (scales, g)
  -- Take a scale in, or hand on the ones that are there.
  let actual ← g.inputScales scales id
  let hint ← g.scaleHint id
  let starts := !hint.numEq F32.one && actual.all (·.numEq F32.one)
  let given := if starts then actual.map fun _ => hint else actual
  let (report, g) ← g.askScale id given (if starts then .scaleInput else .propagate)
  -- Scale the constants and note what the outputs carry.
  let (g, folded) ← Pass.sweep (edges.zip report.inputs) (fun g (edge, scale) =>
    g.scaleConst edge scale) g
  let outputs ← g.outputIds (← g.stage id)
  let scales := (outputs.zip report.outputs).foldl (fun scales (data, scale) =>
    scales.set data (scale.getD F32.one)) scales
  return ((scales, g), rescaled || starts || folded)

/-- Scale an output of the network back. -/
def descaleOutput (scales : Scales) (g : Graph) (output : DataId) : Outcome (Graph × Bool) := do
  let scale := scales.get output
  let d ← g.data output
  match d.producer with
  | none => return (g, false)
  | some producer =>
    if scale.numEq F32.one then return (g, false)
    else
      let (scaled, g) ← g.addLike output "@scaled"
      let g ← g.replaceOutput producer scaled
      let readers := (← g.data output).consumers
      let g ← readers.foldlM (fun g edge => g.replaceInput edge scaled) g
      let g ← g.addRescale (d.name ++ "@descale") (F32.one / scale) scaled output
      return (g, true)

/-- Propagate scales through the whole graph. -/
def propagateScales (g : Graph) : Outcome (Graph × Bool) := do
  let ((scales, g), passed) ← Pass.sweepWith (← g.runOrder) scaleStage ([], g)
  let (g, descaled) ← Pass.sweep g.outputs (descaleOutput scales) g
  return (g, passed || descaled)

end Graph

/-- Take the requested scales into the graph, where the hardware is in use. -/
def Pass.scalePropagation : Pass :=
  { name := "scale_propagation"
    phase := .scale
    run := fun config g =>
      if config.hwOptimization then g.propagateScales else .ok (g, false) }

end NetLower
