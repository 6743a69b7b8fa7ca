/-
Settling stride requirements.  What the writer and the readers of a tensor ask for
is merged; inputs, outputs and constants of the network are dense besides.  A
reader whose wish conflicts reads a copy, and an output whose writer cannot write
it densely is written through a copy.
-/
import NetLower.Pass.Basic
import NetLower.Stage.Layout

namespace NetLower

/-- What stages ask for at each edge. -/
abbrev EdgeReqs := Array (Option StrideReq)

namespace Graph

/-- Note what a stage asks for at its edges. -/
def noteReqs (reqs : EdgeReqs) (edges : List (EdgeId × Option StrideReq)) : EdgeReqs :=
  edges.foldl (fun reqs (edge, req) =>
    match req with
    | some req => reqs.setIfInBounds edge.index (some req)
    | none => reqs) reqs

/-- What every stage asks for at its edges. -/
def edgeReqs (g : Graph) : Outcome EdgeReqs := do
  (← g.runOrder).foldlM (fun reqs id => do
    let site ← g.site id
    let report ← site.kind.family.strides site
    let reqs := noteReqs reqs (site.stage.inputs.zip report.inputs)
    return noteReqs reqs (site.stage.outputs.zip report.outputs))
    (Array.replicate g.edges.size none)

/-- Set what is asked of a tensor's strides. -/
def setReq (g : Graph) (id : DataId) (req : StrideReq) : Graph :=
  g.modifyData id fun d => { d with req }

/-- Add a copy of one tensor into another. -/
def addCopy (g : Graph) (source target : DataId) : Outcome Graph := do
  let name := (← g.data target).name ++ "@copy"
  let (_, g) ← g.addStage { name, kind := .copy } [source] [target]
  return g

/-- Meet the wish of the writer of a tensor, on top of what is asked already. -/
def meetWriter (reqs : EdgeReqs) (g : Graph) (data : DataId) (current : StrideReq) :
    Outcome (StrideReq × Graph × Bool) := do
  match (← g.data data).producer with
  | none => return (current, g, false)
  | some edge =>
    match reqs[edge.index]?.join with
    | none => return (current, g, false)
    | some req =>
      match current.merge req with
      | some merged => return (merged, g, false)
      | none =>
        let (staged, g) ← g.addLike data "@strided"
        let g ← g.replaceOutput edge staged
        let g := g.setReq staged req
        return (current, ← g.addCopy staged data, true)

/-- Meet the wish of one reader of a tensor. -/
def meetReader (reqs : EdgeReqs) (data : DataId) (state : StrideReq × Graph)
    (reader : EdgeId × Nat) : Outcome ((StrideReq × Graph) × Bool) := do
  let (current, g) := state
  let (edge, index) := reader
  match reqs[edge.index]?.join with
  | none => return (state, false)
  | some req =>
    match current.merge req with
    | some merged => return ((merged, g), false)
    | none =>
      let (copy, g) ← g.addLike data ("@strides=" ++ toString index)
      let g := g.setReq copy req
      let g ← g.addCopy data copy
      return ((current, ← g.replaceInput edge copy), true)

/-- What is asked of a tensor by its use alone. -/
def usageReq : Usage → StrideReq
  | .input | .output | .const => StrideReq.compact
  | .intermediate | .fake => StrideReq.empty

/-- Settle the requirement of a tensor. -/
def resolveStrides (reqs : EdgeReqs) (g : Graph) (data : DataId) : Outcome (Graph × Bool) := do
  let d ← g.data data
  if d.usage = .fake then return (g, false)
  else
    let (current, g, written) ← g.meetWriter reqs data (usageReq d.usage)
    let ((current, g), read) ←
      Pass.sweepWith d.consumers.zipIdx (meetReader reqs data) (current, g)
    return (g.setReq data current, written || read)

end Graph

/-- Settle the stride requirement of every tensor. -/
def Pass.strides : Pass :=
  { name := "strides"
    phase := .layout
    run := fun _ g => do
      let reqs ← g.edgeReqs
      Pass.sweep g.dataIds (Graph.resolveStrides reqs) g }

end NetLower
