/-
Splitting a tensor into slices along one dimension, and joining slices again.
-/
import NetLower.Outcome
import NetLower.Stage.Site

namespace NetLower

/-- The offsets of slices along an axis, behind the slices that fill it up to `offset`. -/
def sliceOffsetsFrom (stage : String) (whole : Desc) (axis : Dim) :
    Nat → List Desc → Outcome (List Nat × Nat)
  | offset, [] => .ok ([], offset)
  | offset, part :: rest => do
    let size := (part.dim? axis).getD 0
    let expected ← whole.setDim axis size
    Outcome.require (part.dims = expected.dims ∧ part.dtype = whole.dtype)
      (.shape (.sliceMisfit stage part.dims whole.dims axis))
    let next ← Size.add offset size
    let (offsets, stop) ← sliceOffsetsFrom stage whole axis next rest
    return (offset :: offsets, stop)

/-- The offsets of slices that make up a whole along an axis. -/
def sliceOffsets (stage : String) (whole : Desc) (parts : List Desc) (axis : Dim) :
    Outcome (List Nat) := do
  match whole.dim? axis with
  | none => throw (.shape (.noAxis stage axis))
  | some total =>
    let (offsets, covered) ← sliceOffsetsFrom stage whole axis 0 parts
    Outcome.require (covered = total) (.shape (.sliceCover stage covered total axis))
    return offsets

namespace Site

/-- The dimension a split or concatenation runs along. -/
def axis (s : Site) : Outcome Dim := do
  let digit ← s.attrs.getInt .axis
  Outcome.require (0 ≤ digit) (.attr (.axis s.name digit))
  match Dim.ofDigit? digit.toInt.toNat with
  | some dim => return dim
  | none => throw (.attr (.axis s.name digit))

/-- Where the outputs of a split start in its input. -/
def splitOffsets (s : Site) : Outcome (List Nat) := do
  match s.inputs, s.outputs with
  | [whole], parts@(_ :: _) =>
    sliceOffsets s.name whole.desc (parts.map Data.desc) (← s.axis)
  | _, _ => throw (.graph (.splitSlots s.name))

/-- Where the inputs of a concatenation start in its output. -/
def concatOffsets (s : Site) : Outcome (List Nat) := do
  match s.inputs, s.outputs with
  | parts@(_ :: _), [whole] =>
    sliceOffsets s.name whole.desc (parts.map Data.desc) (← s.axis)
  | _, _ => throw (.graph (.concatSlots s.name))

end Site

end NetLower
