/-
The 64-bit numbers that decimal texts are read as.  A text is read in three
roundings: its digits as a whole number, the power of ten, and their product or
quotient.  Where the power of ten is beyond the format, division goes on by the
greatest power until the exponent fits, and multiplication has no result.
-/
import NetLower.Float.Single

namespace NetLower

/-- A 64-bit floating-point number. -/
structure F64 where
  bits : UInt64
  deriving DecidableEq, Repr, Inhabited

namespace F64

/-- The number with the given pattern, taken modulo 2 ^ 64. -/
def ofPattern (pattern : Nat) : F64 := ⟨UInt64.ofNat pattern⟩

/-- The pattern as a whole number. -/
def pattern (x : F64) : Nat := x.bits.toNat

/-- The exact value of a number. -/
def value (x : F64) : FloatValue := FloatFormat.double.decode x.pattern

/-- The number nearest to a whole number. -/
def ofNat (n : Nat) : F64 := ofPattern (FloatFormat.double.round false n 1)

def mul (x y : F64) : F64 := ofPattern (FloatFormat.double.mul x.pattern y.pattern)

def div (x y : F64) : F64 := ofPattern (FloatFormat.double.div x.pattern y.pattern)

def isFinite (x : F64) : Bool :=
  match x.value with
  | .finite _ _ _ => true
  | _ => false

def isZero (x : F64) : Bool :=
  match x.value with
  | .finite _ m _ => m == 0
  | _ => false

/-- The number with the other sign. -/
def neg (x : F64) : F64 := ⟨x.bits ^^^ 0x8000000000000000⟩

/-- The nearest 32-bit number. -/
def toSingle (x : F64) : F32 :=
  F32.ofPattern (FloatFormat.double.convert FloatFormat.single x.pattern)

/-- The greatest power of ten below infinity. -/
def maxPowerOfTen : Nat := 308

/-- The number nearest to a power of ten. -/
def powerOfTen (k : Nat) : F64 := ofNat (Nat.pow 10 k)

/-- A number divided by `10 ^ k`, at most `10 ^ 308` at a time, until nothing is left of it. -/
def scaleDown (x : F64) (k : Nat) : F64 :=
  if k ≤ maxPowerOfTen then x.div (powerOfTen k)
  else if x.isZero then x
  else scaleDown (x.div (powerOfTen maxPowerOfTen)) (k - maxPowerOfTen)
termination_by k
decreasing_by simp only [maxPowerOfTen] at *; omega

/-- A number multiplied by `10 ^ k`, if the result is finite. -/
def scaleUp? (x : F64) (k : Nat) : Option F64 :=
  if k ≤ maxPowerOfTen then
    let y := x.mul (powerOfTen k)
    if y.isFinite then some y else none
  else if x.isZero then some x
  else none

/-- The number written as `digits · 10 ^ exponent`, if it is in range. -/
def ofDecimal? (digits : Nat) (exponent : Int) : Option F64 :=
  if exponent < 0 then some (scaleDown (ofNat digits) exponent.natAbs)
  else scaleUp? (ofNat digits) exponent.natAbs

end F64

end NetLower
