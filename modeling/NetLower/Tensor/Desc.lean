/-
Tensor descriptors: element type, sizes and memory order.  Sizes are listed in the
canonical order of the rank, whatever order memory runs in, and the memory order
always runs through the dimensions of the rank: this is part of the type, so a
descriptor of an unsupported rank does not exist.
-/
import NetLower.Size
import NetLower.Tensor.Order
import NetLower.Tensor.Strides

namespace NetLower

/-- The step that aligned strides are multiples of. -/
def strideAlignment : Nat := 16

structure Desc where
  dtype : ElementType
  /-- Sizes in canonical order. -/
  dims : List Nat
  /-- The order in memory. -/
  order : Order
  /-- The order runs through the dimensions of the rank. -/
  fits : ∃ c, Order.canonical? dims.length = some c ∧ c.sameDims order = true
  deriving DecidableEq

namespace Desc

theorem canonical_isSome (t : Desc) : (Order.canonical? t.dims.length).isSome = true := by
  obtain ⟨c, hc, _⟩ := t.fits
  simp [hc]

/-- The canonical order of the rank. -/
def canonical (t : Desc) : Order := (Order.canonical? t.dims.length).get t.canonical_isSome

theorem canonical_eq (t : Desc) : Order.canonical? t.dims.length = some t.canonical := by
  simp [canonical]

/-- A descriptor in canonical order. -/
def new (dtype : ElementType) (dims : List Nat) : Outcome Desc :=
  match h : Order.canonical? dims.length with
  | none => .error (.shape (.rank dims.length))
  | some order =>
    if dims.contains 0 then .error (.shape (.zeroSize dims))
    else .ok { dtype, dims, order, fits := ⟨order, h, order.sameDims_self⟩ }

def rank (t : Desc) : Nat := t.dims.length

/-- The size of a dimension, if the tensor has it. -/
def dim? (t : Desc) (x : Dim) : Option Nat := (t.canonical.dims.zip t.dims).lookup x

/-- The descriptor with another size of a dimension. -/
def setDim (t : Desc) (x : Dim) (size : Nat) : Outcome Desc :=
  match t.canonical.dims.idxOf? x with
  | none => .error (.shape (.noDim x))
  | some index =>
    .ok { t with dims := t.dims.set index size, fits := by simpa using t.fits }

/-- The descriptor with another memory order. -/
def setOrder (t : Desc) (order : Order) : Outcome Desc :=
  if h : t.canonical.sameDims order = true then
    .ok { t with order, fits := ⟨t.canonical, t.canonical_eq, h⟩ }
  else .error (.shape (.orderMismatch order t.rank))

/-- The number of elements. -/
def total (t : Desc) : Outcome Nat := Size.product t.dims

/-- Sizes in memory order, innermost first. -/
def memorySizes (t : Desc) : List Nat := t.order.memory.filterMap t.dim?

/-- Strides for the sizes from a position on, where the elements before it fill `next` bytes. -/
def stridesFrom (req : StrideReq) : Nat → Nat → List Nat → Outcome (List Nat)
  | _, _, [] => .ok []
  | pos, next, size :: rest => do
    let stride ←
      if 0 < pos ∧ req.get pos = .aligned then Size.alignUp next strideAlignment else .ok next
    let next ← Size.mul stride size
    let strides ← stridesFrom req (pos + 1) next rest
    .ok (stride :: strides)

/-- Byte strides that meet a requirement, innermost first. -/
def strides (t : Desc) (req : StrideReq) : Outcome (List Nat) :=
  stridesFrom req 0 t.dtype.size t.memorySizes

/-- The bytes a tensor takes up with the given strides. -/
def byteSize (t : Desc) (strides : List Nat) : Outcome Nat :=
  match t.memorySizes.getLast?, strides.getLast? with
  | some size, some stride => Size.mul size stride
  | _, _ => .ok 0

end Desc

end NetLower
