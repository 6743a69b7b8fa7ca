/-
Editing a stage graph.  An edit either fails, and then there is no new graph, or
gives the whole graph with the edit done.
-/
import NetLower.Graph.Basic
import NetLower.Outcome

namespace NetLower.Graph

/-- The graph with one tensor changed. -/
def modifyData (g : Graph) (id : DataId) (f : Data → Data) : Graph :=
  { g with datas := g.datas.modify id.index f }

/-- The graph with one stage changed. -/
def modifyStage (g : Graph) (id : StageId) (f : Stage → Stage) : Graph :=
  { g with stages := g.stages.modify id.index fun s => s.map f }

/-- The graph with one edge led to another tensor. -/
def pointEdge (g : Graph) (id : EdgeId) (data : DataId) : Graph :=
  { g with edges := g.edges.modify id.index fun e => { e with data } }

/-! ## Tensors -/

/-- The graph with a tensor more, and its identifier. -/
def pushData (g : Graph) (d : Data) : DataId × Graph :=
  (⟨g.datas.size⟩, { g with datas := g.datas.push d })

/-- Add a tensor that is neither a constant nor a placeholder. -/
def addData (g : Graph) (name : String) (desc : Desc) (usage : Usage) :
    Outcome (DataId × Graph) :=
  match usage with
  | .input => .ok (g.pushData { name, desc, role := .input })
  | .output => .ok (g.pushData { name, desc, role := .output })
  | .intermediate => .ok (g.pushData { name, desc, role := .intermediate })
  | .const | .fake => .error (.graph (.needsConstructor usage))

/-- Add a constant. -/
def addConst (g : Graph) (name : String) (desc : Desc) (content : Array F32) :
    Outcome (DataId × Graph) := do
  let needed ← desc.total
  if content.size < needed then
    .error (.shape (.constTooShort name content.size needed))
  else .ok (g.pushData { name, desc, role := .const content })

/-- The name of the placeholder. -/
def placeholderName : String := "<fake>"

/-- The placeholder for absent tensors, made on first use. -/
def addPlaceholder (g : Graph) : Outcome (DataId × Graph) :=
  match g.placeholder? with
  | some id => .ok (id, g)
  | none => do
    let desc ← Desc.new .f16 [1]
    return g.pushData { name := placeholderName, desc, role := .fake }

/-- Add a constant with the values of another one under a descriptor of its own. -/
def duplicate (g : Graph) (source : DataId) (suffix : String) (desc : Desc) :
    Outcome (DataId × Graph) := do
  let d ← g.data source
  match d.content? with
  | none => .error (.graph (.notDuplicable d.name d.usage))
  | some content =>
    let needed ← desc.total
    if content.size < needed then
      .error (.shape (.duplicateTooShort d.name content.size needed))
    else .ok (g.pushData { name := d.name ++ suffix, desc, role := .const content })

/-- The name of a constant scaled by a factor. -/
def scaledName (name : String) (factor : F32) : String :=
  name ++ "@scale=" ++ Notation.display.text factor

/-- Add a constant with every value of another one multiplied. A tensor that already has the
name of the result is taken for it, if it is a constant with the same descriptor. -/
def scaledConst (g : Graph) (source : DataId) (factor : F32) : Outcome (DataId × Graph) := do
  let d ← g.data source
  match d.content? with
  | none => .error (.graph (.notConst d.name))
  | some content =>
    let name := scaledName d.name factor
    match g.dataNamed? name with
    | some existing =>
      let e ← g.data existing
      if e.usage = .const ∧ e.desc = d.desc then .ok (existing, g)
      else .error (.graph (.otherLayout name))
    | none => g.addConst name d.desc (content.map (· * factor))

/-- Add an intermediate like a tensor, named after it. -/
def addLike (g : Graph) (source : DataId) (suffix : String) : Outcome (DataId × Graph) := do
  let d ← g.data source
  g.addData (d.name ++ suffix) d.desc .intermediate

/-- The graph with the order of a tensor changed. -/
def setDataOrder (g : Graph) (id : DataId) (order : Order) : Outcome Graph := do
  let d ← g.data id
  let desc ← d.desc.setOrder order
  return g.modifyData id fun d => { d with desc }

/-! ## Stages -/

/-- The edges of a new stage in one direction, numbered from `first` on. -/
def slotEdges (kind : EdgeKind) (stage : StageId) (first : Nat) (datas : List DataId) :
    List (EdgeId × Edge) :=
  datas.zipIdx.map fun (data, slot) => (⟨first + slot⟩, { kind, data, stage, slot })

/-- Whether a stage may write a tensor. -/
def checkWritable (g : Graph) (id : DataId) : Outcome Unit := do
  let d ← g.data id
  if d.producer.isSome then .error (.graph (.hasProducer d.name))
  else match d.usage with
    | .const | .fake | .input => .error (.graph (.notWritable d.usage d.name))
    | .output | .intermediate => .ok ()

/-- The graph with a reader of a tensor more. -/
def addConsumer (g : Graph) (id : DataId) (edge : EdgeId) : Graph :=
  g.modifyData id fun d => { d with consumers := d.consumers ++ [edge] }

/-- The graph with a reader of a tensor less. -/
def dropConsumer (g : Graph) (id : DataId) (edge : EdgeId) : Graph :=
  g.modifyData id fun d => { d with consumers := d.consumers.filter (· ≠ edge) }

/-- The graph with the writer of a tensor changed. -/
def setProducer (g : Graph) (id : DataId) (edge : Option EdgeId) : Graph :=
  g.modifyData id fun d => { d with producer := edge }

/-- Add a stage. Its edges are numbered inputs first. -/
def addStage (g : Graph) (template : StageTemplate) (inputs outputs : List DataId) :
    Outcome (StageId × Graph) := do
  Outcome.forEach (inputs ++ outputs) fun id => Outcome.check (g.data id)
  Outcome.forEach outputs g.checkWritable
  let id : StageId := ⟨g.stages.size⟩
  let reads := slotEdges .input id g.edges.size inputs
  let writes := slotEdges .output id (g.edges.size + inputs.length) outputs
  let stage : Stage :=
    { template with inputs := reads.map Prod.fst, outputs := writes.map Prod.fst }
  let g := { g with
    stages := g.stages.push (some stage)
    edges := g.edges ++ ((reads ++ writes).map Prod.snd).toArray }
  let g := reads.foldl (fun g (edge, e) => g.addConsumer e.data edge) g
  let g := writes.foldl (fun g (edge, e) => g.setProducer e.data (some edge)) g
  return (id, g)

/-- Change the kind of a stage in place. -/
def replaceStage (g : Graph) (id : StageId) (kind : StageKind) : Outcome Graph := do
  let _ ← g.stage id
  return g.modifyStage id fun s => { s with kind }

/-- Change the attributes of a stage. -/
def setAttrs (g : Graph) (id : StageId) (attrs : Attrs) : Graph :=
  g.modifyStage id fun s => { s with attrs }

/-- Write an attribute of a stage. -/
def setAttr (g : Graph) (id : StageId) (key : AttrKey) (value : AttrValue) : Outcome Graph := do
  let s ← g.stage id
  return g.setAttrs id (← s.attrs.set key value)

/-- Take a stage out and its edges off the tensors. -/
def removeStage (g : Graph) (id : StageId) : Outcome Graph := do
  let s ← g.stage id
  let reads ← s.inputs.mapM fun e => return (e, (← g.edge e).data)
  let writes ← s.outputs.mapM fun e => return (← g.edge e).data
  let g := { g with stages := g.stages.setIfInBounds id.index none }
  let g := reads.foldl (fun g (edge, data) => g.dropConsumer data edge) g
  return writes.foldl (fun g data => g.setProducer data none) g

/-! ## Edges -/

/-- Lead an input edge to another tensor. -/
def replaceInput (g : Graph) (edge : EdgeId) (data : DataId) : Outcome Graph := do
  let _ ← g.data data
  let e ← g.edge edge
  if e.kind ≠ .input then .error (.graph (.edgeNotInput edge))
  else
    .ok (((g.dropConsumer e.data edge).addConsumer data edge).pointEdge edge data)

/-- Lead an output edge to another tensor, which must not have a writer yet. -/
def replaceOutput (g : Graph) (edge : EdgeId) (data : DataId) : Outcome Graph := do
  let target ← g.data data
  if target.producer.isSome then .error (.graph (.hasProducer target.name))
  else
    let e ← g.edge edge
    if e.kind ≠ .output then .error (.graph (.edgeNotOutput edge))
    else
      .ok (((g.setProducer e.data none).setProducer data (some edge)).pointEdge edge data)

end NetLower.Graph
