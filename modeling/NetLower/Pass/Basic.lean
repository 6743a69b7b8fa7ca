/-
Passes over a stage graph.  A pass belongs to a phase; passes run phase by phase,
and within a phase in the order in which they were listed.
-/
import NetLower.Config
import NetLower.Graph.Order
import NetLower.Stage.Site

namespace NetLower

/-- When a pass runs. -/
inductive Phase where
  /-- Check the fresh graph. -/
  | check
  /-- Split batches. -/
  | batch
  /-- Take scales into weights. -/
  | scale
  /-- Replace stubs. -/
  | lowering
  /-- Settle orders and strides. -/
  | layout
  /-- Give tensors their places. -/
  | allocation
  /-- Check the finished graph. -/
  | finalize
  deriving DecidableEq, Repr

namespace Phase

/-- Every phase, in order. -/
def all : List Phase := [check, batch, scale, lowering, layout, allocation, finalize]

def rank (p : Phase) : Nat := all.idxOf p

def name : Phase → String
  | check => "Check"
  | batch => "Batch"
  | scale => "Scale"
  | lowering => "Lowering"
  | layout => "Layout"
  | allocation => "Allocation"
  | finalize => "Finalize"

end Phase

/-- A step of the compiler. Running it gives the graph afterwards and whether it changed. -/
structure Pass where
  name : String
  phase : Phase
  run : Config → Graph → Outcome (Graph × Bool)

namespace Pass

/-- Do something at each of a list of places, one after the other. -/
def sweep (places : List α) (visit : Graph → α → Outcome (Graph × Bool)) (g : Graph) :
    Outcome (Graph × Bool) :=
  places.foldlM (fun (g, changed) place => do
    let (g, here) ← visit g place
    return (g, changed || here)) (g, false)

/-- As `sweep`, with something to remember from place to place. -/
def sweepWith (places : List α) (visit : σ × Graph → α → Outcome ((σ × Graph) × Bool))
    (state : σ × Graph) : Outcome ((σ × Graph) × Bool) :=
  places.foldlM (fun (state, changed) place => do
    let (state, here) ← visit state place
    return (state, changed || here)) (state, false)

end Pass

end NetLower
