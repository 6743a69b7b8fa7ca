/-
The 32-bit numbers that weights, scales and stage parameters are made of.  A
number is its bit pattern, so equality of numbers is equality of patterns;
`numEq` is the comparison of the numbers themselves, in which a NaN differs from
everything and the two zeros agree.
-/
import NetLower.Float.Format

namespace NetLower

/-- A 32-bit floating-point number. -/
structure F32 where
  bits : UInt32
  deriving DecidableEq, Repr, Inhabited

namespace F32

/-- The number with the given pattern, taken modulo 2 ^ 32. -/
def ofPattern (pattern : Nat) : F32 := ⟨UInt32.ofNat pattern⟩

/-- The pattern as a whole number. -/
def pattern (x : F32) : Nat := x.bits.toNat

/-- The exact value of a number. -/
def value (x : F32) : FloatValue := FloatFormat.single.decode x.pattern

/-- The number 1. -/
def one : F32 := ⟨0x3f800000⟩

/-- The number 0. -/
def zero : F32 := ⟨0⟩

/-- The number nearest to a whole number. -/
def ofInt (n : Int) : F32 :=
  ofPattern (FloatFormat.single.round (decide (n < 0)) n.natAbs 1)

def mul (x y : F32) : F32 := ofPattern (FloatFormat.single.mul x.pattern y.pattern)

def div (x y : F32) : F32 := ofPattern (FloatFormat.single.div x.pattern y.pattern)

instance : Mul F32 := ⟨mul⟩

instance : Div F32 := ⟨div⟩

def isNan (x : F32) : Bool :=
  match x.value with
  | .nan _ _ => true
  | _ => false

def isFinite (x : F32) : Bool :=
  match x.value with
  | .finite _ _ _ => true
  | _ => false

def isZero (x : F32) : Bool :=
  match x.value with
  | .finite _ m _ => m == 0
  | _ => false

/-- Whether two numbers are equal as numbers. -/
def numEq (x y : F32) : Bool :=
  !x.isNan && !y.isNan && (x.bits == y.bits || (x.isZero && y.isZero))

/-- Whether a number is greater than zero. -/
def isPositive (x : F32) : Bool :=
  match x.value with
  | .nan _ _ => false
  | .infinite negative => !negative
  | .finite negative m _ => !negative && m != 0

/-- The 16-bit pattern nearest to a number. -/
def toHalf (x : F32) : UInt16 :=
  UInt16.ofNat (FloatFormat.single.convert FloatFormat.half x.pattern)

/-- The number cut off at its point and kept within `lo` and `hi`; a NaN gives 0. -/
def truncate (x : F32) (lo hi : Int) : Int :=
  match x.value with
  | .nan _ _ => 0
  | .infinite negative => if negative then lo else hi
  | .finite negative m e =>
    let magnitude : Int := ((m <<< e.toNat) >>> (-e).toNat : Nat)
    max lo (min hi (if negative then -magnitude else magnitude))

end F32

end NetLower
