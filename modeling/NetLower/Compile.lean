/-
The whole compiler: the graph of a network goes through the passes and is written
as a blob.
-/
import NetLower.Blob.Write
import NetLower.Network.Graph
import NetLower.Pass.Batch
import NetLower.Pass.Check
import NetLower.Pass.DataOrder
import NetLower.Pass.Layout
import NetLower.Pass.Lower
import NetLower.Pass.Memory
import NetLower.Pass.Scale
import NetLower.Pass.Strides

namespace NetLower

namespace Pass

/-- The passes of the compiler. -/
def standard : List Pass :=
  [initialCheck, adjustBatch, scalePropagation, replaceStubs, dataOrder, strides, finalizeLayout,
    allocateMemory, finalCheck]

/-- Passes in the order in which they run: phase by phase, and as listed within a phase. -/
def schedule (passes : List Pass) : List Pass :=
  Phase.all.flatMap fun phase => passes.filter fun p => p.phase = phase

/-- Run passes one after the other. -/
def runAll (config : Config) : List Pass → Graph → Outcome Graph
  | [], g => .ok g
  | p :: rest, g => do
    let (g, _) ← p.run config g
    runAll config rest g

/-- A pass that was run: the graph before it and what it made of it. -/
structure Step where
  pass : Pass
  before : Graph
  result : Outcome (Graph × Bool)

/-- Every pass that `runAll` starts, with its result; a pass that fails is the last one. -/
def trace (config : Config) : List Pass → Graph → List Step
  | [], _ => []
  | p :: rest, g =>
    let result := p.run config g
    { pass := p, before := g, result } :: match result with
      | .ok (after, _) => trace config rest after
      | .error _ => []

end Pass

/-- Lower a graph with the passes of the compiler. -/
def Graph.lower (g : Graph) (config : Config) : Outcome Graph :=
  Pass.runAll config (Pass.schedule Pass.standard) g

/-- The blob of a network. -/
def Network.compile (n : Network) (config : Config) : Outcome Blob := do
  let g ← n.graph config
  (← g.lower config).blob

end NetLower
