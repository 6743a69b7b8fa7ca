/-
Sizes and offsets.  A size is a natural number that fits a 64-bit word; sums and
products that leave the word are faults.
-/
import NetLower.Error

namespace NetLower.Size

/-- The number of different sizes. -/
def range : Nat := UInt64.size

def mul (a b : Nat) : Outcome Nat :=
  if a * b < range then .ok (a * b) else .error (.fault .multiply)

def add (a b : Nat) : Outcome Nat :=
  if a + b < range then .ok (a + b) else .error (.fault .add)

/-- The product of a list, multiplied up from the left. -/
def product (sizes : List Nat) : Outcome Nat := sizes.foldlM mul 1

/-- How often `unit` goes into `size`, rounded up. -/
def ceilDiv (size unit : Nat) : Nat := (size + (unit - 1)) / unit

/-- The least multiple of `unit` that is not below `size`. -/
def alignUp (size unit : Nat) : Outcome Nat := mul (ceilDiv size unit) unit

/-- The greatest number of bytes a buffer can have. -/
def maxBuffer : Nat := range / 2 - 1

end NetLower.Size
