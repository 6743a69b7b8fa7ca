/-
Element types of tensors, with their sizes and their codes in a blob.
-/
namespace NetLower

inductive ElementType where
  | f16
  | f32
  | i32
  | u8
  deriving DecidableEq, Repr, Inhabited

namespace ElementType

def all : List ElementType := [f16, f32, i32, u8]

/-- Bytes of one element. -/
def size : ElementType → Nat
  | f16 => 2
  | f32 => 4
  | i32 => 4
  | u8 => 1

/-- The code in a buffer descriptor. -/
def code : ElementType → UInt32
  | f16 => 0
  | f32 => 1
  | i32 => 2
  | u8 => 3

def name : ElementType → String
  | f16 => "F16"
  | f32 => "F32"
  | i32 => "I32"
  | u8 => "U8"

end ElementType

end NetLower
