/-
Tensor dimensions and the orders in which memory runs through them.  An order is
a list of different dimensions, innermost first.  Its packed code has one base-16
digit per dimension with the innermost in the lowest place, so `NCHW` is
`0x4321` and `NHWC` is `0x4213`.
-/
namespace NetLower

/-- A logical tensor dimension. -/
inductive Dim where
  /-- Width. -/
  | w
  /-- Height. -/
  | h
  /-- Channels. -/
  | c
  /-- Batch items. -/
  | n
  /-- Depth. -/
  | d
  deriving DecidableEq, Repr, Inhabited

namespace Dim

/-- Every dimension, by digit. -/
def all : List Dim := [w, h, c, n, d]

/-- The digit that stands for a dimension in an order code. -/
def digit : Dim → Nat
  | w => 1
  | h => 2
  | c => 3
  | n => 4
  | d => 5

/-- The dimension a digit stands for. -/
def ofDigit? : Nat → Option Dim
  | 1 => some w
  | 2 => some h
  | 3 => some c
  | 4 => some n
  | 5 => some d
  | _ => none

def name : Dim → String
  | w => "W"
  | h => "H"
  | c => "C"
  | n => "N"
  | d => "D"

@[simp] theorem ofDigit?_digit (x : Dim) : ofDigit? x.digit = some x := by
  cases x <;> rfl

end Dim

/-- An order of dimensions in memory. -/
structure Order where
  /-- The dimensions, innermost first. -/
  memory : List Dim
  nodup : memory.Nodup := by decide
  nonempty : memory ≠ [] := by decide
  deriving DecidableEq, Repr

namespace Order

instance : Inhabited Order := ⟨{ memory := [.c] }⟩

/-- The dimensions, outermost first. -/
def dims (o : Order) : List Dim := o.memory.reverse

def rank (o : Order) : Nat := o.memory.length

/-- The memory position of a dimension; 0 is innermost. -/
def position? (o : Order) (x : Dim) : Option Nat := o.memory.idxOf? x

def has (o : Order) (x : Dim) : Bool := o.memory.contains x

/-- Whether two orders run through the same dimensions. -/
def sameDims (a b : Order) : Bool := a.memory.isPerm b.memory

@[simp] theorem sameDims_self (o : Order) : o.sameDims o = true :=
  List.isPerm_iff.mpr (List.Perm.refl _)

/-- The code of a list of dimensions, the first in the lowest place. -/
def pack : List Dim → Nat
  | [] => 0
  | x :: xs => x.digit + 16 * pack xs

/-- The packed code. -/
def code (o : Order) : Nat := pack o.memory

/-- The names of the dimensions, outermost first. -/
def text (o : Order) : String := String.join (o.dims.map Dim.name)

def c : Order := { memory := [.c] }

def nc : Order := { memory := [.c, .n] }

def chw : Order := { memory := [.w, .h, .c] }

def hwc : Order := { memory := [.c, .w, .h] }

def nchw : Order := { memory := [.w, .h, .c, .n] }

def nhwc : Order := { memory := [.c, .w, .h, .n] }

def ncdhw : Order := { memory := [.w, .h, .d, .c, .n] }

def ndhwc : Order := { memory := [.c, .w, .h, .d, .n] }

/-- The logical order of a rank, in which sizes are listed. -/
def canonical? : Nat → Option Order
  | 1 => some c
  | 2 => some nc
  | 3 => some chw
  | 4 => some nchw
  | 5 => some ncdhw
  | _ => none

/-- The channel-innermost order of a rank; ranks without space stay canonical. -/
def interleaved? : Nat → Option Order
  | 3 => some hwc
  | 4 => some nhwc
  | 5 => some ndhwc
  | rank => canonical? rank

theorem rank_canonical {rank : Nat} {o : Order} (h : canonical? rank = some o) :
    o.memory.length = rank := by
  unfold canonical? at h
  split at h <;> simp_all <;> subst h <;> rfl

end Order

end NetLower
