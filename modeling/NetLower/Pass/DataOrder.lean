/-
Settling memory orders.  In running order, every stage says which orders it needs.
A tensor takes the order its writer needs; a reader that needs another one reads a
permuted copy.  Inputs and outputs of the network keep their orders, and constants
are put into the order that is needed.
-/
import NetLower.Pass.Basic
import NetLower.Stage.Layout

namespace NetLower

/-- The permuted copies made so far, by tensor and order. -/
abbrev Permuted := List ((DataId × Order) × DataId)

namespace Graph

/-- The suffix of a tensor's copy in an order. -/
def orderSuffix (order : Order) : String := "@" ++ order.text

/-- Add a permutation of one tensor into another. -/
def addPermute (g : Graph) (source target : DataId) : Outcome Graph := do
  let name := (← g.data target).name ++ "@permute"
  let (_, g) ← g.addStage { name, kind := .permute } [source] [target]
  return g

/-- Add an intermediate like a tensor in another order. -/
def addInOrder (g : Graph) (data : DataId) (order : Order) : Outcome (DataId × Graph) := do
  let (target, g) ← g.addLike data (orderSuffix order)
  return (target, ← g.setDataOrder target order)

/-- The permuted copy of a tensor, made on first use. -/
def permutedCopy (permuted : Permuted) (g : Graph) (data : DataId) (order : Order) :
    Outcome (DataId × Permuted × Graph) := do
  match permuted.lookup (data, order) with
  | some copy => return (copy, permuted, g)
  | none =>
    let (target, g) ← g.addInOrder data order
    let g ← g.addPermute data target
    return (target, ((data, order), target) :: permuted, g)

/-- Bring what an input edge reads into the order its stage needs. -/
def orderInput (state : Permuted × Graph) (edge : EdgeId) (wanted : Option Order) :
    Outcome ((Permuted × Graph) × Bool) := do
  let (permuted, g) := state
  match wanted with
  | none => return (state, false)
  | some order =>
    let data := (← g.edge edge).data
    let d ← g.data data
    if d.desc.order = order then return (state, false)
    else match d.usage with
      | .fake => return (state, false)
      | .const =>
        if d.consumers.length = 1 then return ((permuted, ← g.setDataOrder data order), true)
        else
          let desc ← d.desc.setOrder order
          let (copy, g) ← g.duplicate data (orderSuffix order) desc
          return ((permuted, ← g.replaceInput edge copy), true)
      | _ =>
        let (copy, permuted, g) ← permutedCopy permuted g data order
        return ((permuted, ← g.replaceInput edge copy), true)

/-- Bring what an output edge writes into the order its stage needs. The network still sees its
outputs in their own order. -/
def orderOutput (g : Graph) (edge : EdgeId) (wanted : Option Order) : Outcome (Graph × Bool) := do
  match wanted with
  | none => return (g, false)
  | some order =>
    let data := (← g.edge edge).data
    let d ← g.data data
    if d.desc.order = order then return (g, false)
    else if d.usage = .output then
      let (staged, g) ← g.addInOrder data order
      let g ← g.replaceOutput edge staged
      return (← g.addPermute staged data, true)
    else return (← g.setDataOrder data order, true)

/-- Settle the orders around a stage. -/
def orderStage (state : Permuted × Graph) (id : StageId) :
    Outcome ((Permuted × Graph) × Bool) := do
  let site ← state.2.site id
  let report ← site.kind.family.orders site
  let ((permuted, g), read) ← Pass.sweepWith (site.stage.inputs.zip report.inputs)
    (fun state (edge, wanted) => orderInput state edge wanted) state
  let (g, written) ← Pass.sweep (site.stage.outputs.zip report.outputs)
    (fun g (edge, wanted) => g.orderOutput edge wanted) g
  return ((permuted, g), read || written)

end Graph

/-- Settle the memory order of every tensor. -/
def Pass.dataOrder : Pass :=
  { name := "data_order"
    phase := .layout
    run := fun _ g => do
      let ((_, g), changed) ← Pass.sweepWith (← g.runOrder) Graph.orderStage ([], g)
      return (g, changed) }

end NetLower
