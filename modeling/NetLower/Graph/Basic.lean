/-
The stage graph.  Tensors and stages are nodes; an edge links one tensor with one
slot of one stage.  Every node and edge keeps its identifier for good: a stage
that is taken out leaves a hole.

The links are stored twice, in the edges and as back references in the tensors,
because the order of a tensor's readers is part of the graph.
-/
import NetLower.Attr.Store
import NetLower.Tensor.Desc

namespace NetLower

/-- What a tensor is, with the values of a constant. -/
inductive Role where
  | input
  | output
  | intermediate
  /-- A constant with its values in canonical order; there may be more than the shape needs. -/
  | const (content : Array F32)
  | fake
  deriving DecidableEq

namespace Role

def usage : Role → Usage
  | input => .input
  | output => .output
  | intermediate => .intermediate
  | const _ => .const
  | fake => .fake

def content? : Role → Option (Array F32)
  | const content => some content
  | _ => none

end Role

/-- A tensor of the graph. -/
structure Data where
  name : String
  desc : Desc
  role : Role
  /-- The edge from the stage that writes the tensor. -/
  producer : Option EdgeId := none
  /-- The edges to the stages that read the tensor. -/
  consumers : List EdgeId := []
  /-- What the stages around the tensor ask of its strides. -/
  req : StrideReq := StrideReq.empty
  /-- The final byte strides, innermost first. -/
  strides : Option (List Nat) := none
  location : Option Location := none
  deriving DecidableEq

namespace Data

def usage (d : Data) : Usage := d.role.usage

def content? (d : Data) : Option (Array F32) := d.role.content?

end Data

/-- The direction of an edge, seen from its stage. -/
inductive EdgeKind where
  | input
  | output
  deriving DecidableEq, Repr

namespace EdgeKind

def name : EdgeKind → String
  | input => "Input"
  | output => "Output"

end EdgeKind

/-- A link between a tensor and a slot of a stage. -/
structure Edge where
  kind : EdgeKind
  data : DataId
  stage : StageId
  slot : Nat
  deriving DecidableEq, Repr

/-- A stage without its links. -/
structure StageTemplate where
  name : String
  kind : StageKind
  attrs : Attrs := Attrs.empty
  /-- The layer the stage comes from. -/
  origin : Option String := none
  deriving DecidableEq

/-- A stage of the graph. -/
structure Stage extends StageTemplate where
  /-- Edges from the tensors it reads, by slot. -/
  inputs : List EdgeId
  /-- Edges to the tensors it writes, by slot. -/
  outputs : List EdgeId
  deriving DecidableEq

structure Graph where
  name : String
  datas : Array Data := #[]
  /-- Stages by identifier; a hole is a stage that was taken out. -/
  stages : Array (Option Stage) := #[]
  edges : Array Edge := #[]
  deriving DecidableEq

namespace Graph

instance : Inhabited Graph := ⟨{ name := "" }⟩

def data (g : Graph) (id : DataId) : Outcome Data :=
  match g.datas[id.index]? with
  | some d => .ok d
  | none => .error (.graph (.noData id))

def stage? (g : Graph) (id : StageId) : Option Stage := g.stages[id.index]?.join

def stage (g : Graph) (id : StageId) : Outcome Stage :=
  match g.stage? id with
  | some s => .ok s
  | none => .error (.graph (.noStage id))

def edge (g : Graph) (id : EdgeId) : Outcome Edge :=
  match g.edges[id.index]? with
  | some e => .ok e
  | none => .error (.graph (.noEdge id))

/-- The tensors in order of creation. -/
def dataIds (g : Graph) : List DataId := (List.range g.datas.size).map DataId.mk

/-- The stages still in the graph, in order of creation. -/
def liveStages (g : Graph) : List (StageId × Stage) :=
  g.stages.toList.zipIdx.filterMap fun (s, index) => s.map fun s => (⟨index⟩, s)

def liveIds (g : Graph) : List StageId := g.liveStages.map Prod.fst

def stageCount (g : Graph) : Nat := g.liveStages.length

/-- The tensor with a name; the youngest one, if the name was given more than once. -/
def dataNamed? (g : Graph) (name : String) : Option DataId :=
  (g.datas.toList.zipIdx.reverse.find? fun (d, _) => d.name == name).map fun (_, index) => ⟨index⟩

/-- The oldest stage with a name. -/
def stageNamed (g : Graph) (name : String) : Outcome StageId :=
  match g.liveStages.find? fun (_, s) => s.name == name with
  | some (id, _) => .ok id
  | none => .error (.graph (.noStageNamed name))

/-- The tensors of a use, in order of creation. -/
def datasUsed (g : Graph) (usage : Usage) : List DataId :=
  g.datas.toList.zipIdx.filterMap fun (d, index) =>
    if d.usage = usage then some ⟨index⟩ else none

/-- The tensors the caller gives. -/
def inputs (g : Graph) : List DataId := g.datasUsed .input

/-- The tensors the caller gets back. -/
def outputs (g : Graph) : List DataId := g.datasUsed .output

/-- The placeholder for absent tensors, if it exists. -/
def placeholder? (g : Graph) : Option DataId := (g.datasUsed .fake).head?

/-- The stage that writes a tensor. -/
def producer (g : Graph) (id : DataId) : Outcome (Option StageId) := do
  let d ← g.data id
  d.producer.mapM fun e => return (← g.edge e).stage

/-- The stages that read a tensor. -/
def consumers (g : Graph) (id : DataId) : Outcome (List StageId) := do
  let d ← g.data id
  d.consumers.mapM fun e => return (← g.edge e).stage

/-- The tensor at an input slot. -/
def inputData (g : Graph) (id : StageId) (slot : Nat) : Outcome DataId := do
  let s ← g.stage id
  match s.inputs[slot]? with
  | some e => return (← g.edge e).data
  | none => .error (.graph (.noInput s.name slot))

/-- The tensor at an output slot. -/
def outputData (g : Graph) (id : StageId) (slot : Nat) : Outcome DataId := do
  let s ← g.stage id
  match s.outputs[slot]? with
  | some e => return (← g.edge e).data
  | none => .error (.graph (.noOutput s.name slot))

/-- The tensors a stage reads, by slot. -/
def inputIds (g : Graph) (s : Stage) : Outcome (List DataId) :=
  s.inputs.mapM fun e => return (← g.edge e).data

/-- The tensors a stage writes, by slot. -/
def outputIds (g : Graph) (s : Stage) : Outcome (List DataId) :=
  s.outputs.mapM fun e => return (← g.edge e).data

end Graph

end NetLower
