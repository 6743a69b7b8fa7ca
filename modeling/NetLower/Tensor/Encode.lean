/-
The bytes of a constant tensor.  Values are given in canonical order, last
dimension fastest; each is put at the place its indices and the byte strides lead
to, and all other bytes are zero.
-/
import NetLower.Bytes
import NetLower.Outcome
import NetLower.Tensor.Desc

namespace NetLower

/-- The bytes of one element. -/
def ElementType.encode (t : ElementType) (x : F32) : Bytes :=
  match t with
  | .f16 => Bytes.ofUInt16 x.toHalf
  | .f32 => Bytes.ofF32 x
  | .i32 => Bytes.ofInt32 (Int32.ofInt (x.truncate (-2147483648) 2147483647))
  | .u8 => #[UInt8.ofNat (x.truncate 0 255).toNat]

/-- Bytes that have a place of their own in a buffer. -/
structure Run where
  offset : Nat
  bytes : Bytes
  deriving DecidableEq

namespace Run

/-- Where a run ends, which must be inside a buffer of the given size. -/
def checkWithin (r : Run) (size : Nat) (outside : Error) : Outcome Unit := do
  let stop ← Size.add r.offset r.bytes.size
  Outcome.require (stop ≤ size) outside

/-- A buffer with the bytes of a run in place. -/
def put (buffer : Bytes) (r : Run) : Bytes :=
  (r.bytes.foldl (fun (b, k) byte => (b.setIfInBounds k byte, k + 1)) (buffer, r.offset)).1

/-- A buffer of zeros with runs in place; a later run covers an earlier one. -/
def lay (size : Nat) (runs : List Run) : Bytes := runs.foldl put (Array.replicate size 0)

end Run

namespace Desc

/-- The byte strides of the canonical dimensions, outermost first. -/
def canonicalStrides (t : Desc) (strides : List Nat) : List Nat :=
  t.canonical.dims.map fun x => strides.getD (t.order.memory.idxOf x) 0

/-- The byte offset of an element, from sizes and strides listed last dimension first. -/
def offsetFrom : List (Nat × Nat) → Nat → Nat → Outcome Nat
  | [], _, offset => .ok offset
  | (size, stride) :: rest, linear, offset => do
    let step ← Size.mul (linear % size) stride
    let offset ← Size.add offset step
    offsetFrom rest (linear / size) offset

/-- The byte offset of the element at a canonical position. -/
def offset (t : Desc) (strides : List Nat) (linear : Nat) : Outcome Nat :=
  offsetFrom (t.dims.zip (t.canonicalStrides strides)).reverse linear 0

/-- The place and the bytes of one element, in a buffer of the given size. -/
def run (t : Desc) (strides : List Nat) (size linear : Nat) (x : F32) : Outcome Run := do
  let run : Run := { offset := ← t.offset strides linear, bytes := t.dtype.encode x }
  run.checkWithin size (.codec (.outsideBuffer linear))
  return run

/-- The bytes of a tensor with the given values and byte strides, innermost first. -/
def encode (t : Desc) (values : Array F32) (strides : List Nat) : Outcome Bytes := do
  Outcome.require (strides.length = t.rank) (.codec (.strideCount strides.length t.rank))
  let total ← t.total
  Outcome.require (total ≤ values.size) (.codec (.fewValues total values.size))
  let size ← Bytes.checkSize (← t.byteSize strides)
  let runs ← (values.toList.take total).zipIdx.mapM fun (x, linear) => t.run strides size linear x
  return Run.lay size runs

end Desc

end NetLower
