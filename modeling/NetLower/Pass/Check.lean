/-
The first and the last pass: every stage is checked, in running order.
-/
import NetLower.Outcome
import NetLower.Pass.Basic
import NetLower.Stage.Check

namespace NetLower.Pass

/-- Run a check at every stage. -/
def checkAll (check : StageFamily → Site → Outcome Unit) (g : Graph) : Outcome (Graph × Bool) := do
  Outcome.forEach (← g.runOrder) fun id => do
    let site ← g.site id
    check site.kind.family site
  return (g, false)

/-- Check the fresh graph; cycles are refused here too. -/
def initialCheck : Pass :=
  { name := "initial_check", phase := .check, run := fun _ => checkAll StageFamily.initialCheck }

/-- Check the finished graph. -/
def finalCheck : Pass :=
  { name := "final_check", phase := .finalize, run := fun _ => checkAll StageFamily.finalCheck }

end NetLower.Pass
