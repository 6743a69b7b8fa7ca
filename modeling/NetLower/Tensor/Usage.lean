/-
What a tensor is for, and where tensors of each use live when the program runs.
-/
namespace NetLower

/-- The role of a tensor in a compiled network. -/
inductive Usage where
  /-- Given by the caller. -/
  | input
  /-- Returned to the caller. -/
  | output
  /-- Produced and consumed inside the network. -/
  | intermediate
  /-- Stored in the blob. -/
  | const
  /-- Stands for a tensor that is absent, such as missing biases. -/
  | fake
  deriving DecidableEq, Repr, Inhabited

namespace Usage

def all : List Usage := [input, output, intermediate, const, fake]

def name : Usage → String
  | input => "Input"
  | output => "Output"
  | intermediate => "Intermediate"
  | const => "Const"
  | fake => "Fake"

end Usage

/-- A memory area of the running program. -/
inductive MemoryArea where
  | input
  | output
  /-- The constant section of the blob. -/
  | blob
  /-- Scratch memory for intermediates. -/
  | bss
  deriving DecidableEq, Repr, Inhabited

namespace MemoryArea

def all : List MemoryArea := [input, output, blob, bss]

/-- The code in a buffer descriptor, where 0 means that there is no location. -/
def code : MemoryArea → UInt32
  | input => 1
  | output => 2
  | blob => 3
  | bss => 4

def name : MemoryArea → String
  | input => "Input"
  | output => "Output"
  | blob => "Blob"
  | bss => "Bss"

end MemoryArea

/-- The area for tensors of a use; placeholders have none. -/
def Usage.area? : Usage → Option MemoryArea
  | .input => some .input
  | .output => some .output
  | .const => some .blob
  | .intermediate => some .bss
  | .fake => none

/-- Where a tensor lives. -/
structure Location where
  area : MemoryArea
  offset : Nat
  deriving DecidableEq, Repr

end NetLower
