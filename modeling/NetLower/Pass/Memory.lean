/-
Places in memory.  Tensors are put one after the other into the area of their use,
each at a multiple of 64 bytes.  Tensors that no stage touches get no place, unless
they belong to the caller.
-/
import NetLower.Graph.Edit
import NetLower.Pass.Basic

namespace NetLower

/-- Offsets and sections are multiples of this many bytes. -/
def dataAlignment : Nat := 64

/-- A size for each memory area. -/
structure AreaSizes where
  input : Nat := 0
  output : Nat := 0
  blob : Nat := 0
  bss : Nat := 0
  deriving DecidableEq, Repr

namespace AreaSizes

def get (a : AreaSizes) : MemoryArea → Nat
  | .input => a.input
  | .output => a.output
  | .blob => a.blob
  | .bss => a.bss

def set (a : AreaSizes) (area : MemoryArea) (size : Nat) : AreaSizes :=
  match area with
  | .input => { a with input := size }
  | .output => { a with output := size }
  | .blob => { a with blob := size }
  | .bss => { a with bss := size }

end AreaSizes

namespace Data

/-- Whether the tensor belongs to the caller. -/
def isExternal (d : Data) : Bool := d.usage == .input || d.usage == .output

/-- Whether some stage reads or writes the tensor. -/
def isLinked (d : Data) : Bool := d.producer.isSome || !d.consumers.isEmpty

/-- The area of a tensor that needs a place. -/
def neededArea? (d : Data) : Option MemoryArea :=
  if d.isExternal || d.isLinked then d.usage.area? else none

end Data

namespace Graph

/-- Plan the place of one tensor behind those of its area. -/
def planData (g : Graph) (state : AreaSizes × List (DataId × Location)) (id : DataId) :
    Outcome (AreaSizes × List (DataId × Location)) := do
  let (used, plan) := state
  let d ← g.data id
  match d.neededArea? with
  | none => return state
  | some area =>
    match d.strides with
    | none => throw (.lowering (.noStrides d.name))
    | some strides =>
      let offset := used.get area
      let size ← Size.alignUp (← d.desc.byteSize strides) dataAlignment
      let next ← Size.add offset size
      return (used.set area next, plan ++ [(id, { area, offset })])

/-- The places of all tensors that need one. -/
def plan (g : Graph) : Outcome (List (DataId × Location)) := do
  let (_, plan) ← g.dataIds.foldlM g.planData ({}, [])
  return plan

/-- Put a tensor in its place. -/
def setLocation (g : Graph) (id : DataId) (location : Location) : Graph :=
  g.modifyData id fun d => { d with location := some location }

end Graph

/-- Give every tensor its place. -/
def Pass.allocateMemory : Pass :=
  { name := "allocate_memory"
    phase := .allocation
    run := fun _ g => do
      let plan ← g.plan
      return (plan.foldl (fun g (id, location) => g.setLocation id location) g, !plan.isEmpty) }

end NetLower
