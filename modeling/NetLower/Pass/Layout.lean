/-
The final layout: stages settle what is left of their weights, and then every
tensor gets its byte strides.
-/
import NetLower.Pass.Basic
import NetLower.Stage.Layout

namespace NetLower

namespace Graph

/-- Let every stage settle its layout, in running order. -/
def finalizeStages (g : Graph) : Outcome Graph := do
  (← g.runOrder).foldlM (fun g id => do g.finalizeLayout id (← g.stage id).kind.family) g

/-- Give a tensor its byte strides. -/
def computeStrides (g : Graph) (id : DataId) : Outcome Graph := do
  let d ← g.data id
  let strides ← d.desc.strides d.req
  return g.modifyData id fun d => { d with strides := some strides }

end Graph

/-- Settle the layout of every tensor. -/
def Pass.finalizeLayout : Pass :=
  { name := "finalize_layout"
    phase := .layout
    run := fun _ g => do
      let g ← g.finalizeStages
      return (← g.dataIds.foldlM Graph.computeStrides g, true) }

end NetLower
