/-
A blob as text: its header and a line for each stage.
-/
import NetLower.Blob.Basic
import NetLower.Text.Show

namespace NetLower

namespace StageRecord

/-- The name of the kind of stage, or its code if the kind is not known. -/
def kindText (r : StageRecord) : String :=
  match r.kind? with
  | some kind => kind.name
  | none => s!"unknown({r.code.toNat})"

/-- The line of a stage. -/
def line (index : Nat) (r : StageRecord) : String :=
  let number := Text.padLeft ' ' 3 (toString index)
  let kind := Text.padRight 16 r.kindText
  let params := Text.padRight 4 (toString r.params.size)
  s!"  [{number}] {kind} params={params} data={r.data.size}\n"

end StageRecord

namespace Blob

/-- The lines of the header. -/
def summary (b : Blob) : String :=
  let h := b.header
  s!"Blob v{h.version.toNat} ({b.length} bytes)\n" ++
  s!"  Stages:       {h.stageCount.toNat}\n" ++
  s!"  Constants:    {h.constSize.toNat} bytes at offset {h.constOffset.toNat}\n" ++
  s!"  BSS:          {h.bssSize.toNat} bytes\n" ++
  s!"  Input area:   {h.inputSize.toNat} bytes\n" ++
  s!"  Output area:  {h.outputSize.toNat} bytes\n"

/-- The header, an empty line, and a line for each stage. -/
def describe (b : Blob) : Outcome String := do
  let stages ← b.stages
  let lines := stages.zipIdx.map fun (record, index) => record.line index
  return b.summary ++ "\n" ++ String.join lines

end Blob

end NetLower
