/-
Binary floating-point formats.  A format fixes the widths of the exponent and
fraction fields; `decode` gives the exact value behind a bit pattern and
`round` the pattern nearest to an exact quotient.  Everything is whole-number
arithmetic, so one rounding rule serves every width the library uses.
-/
namespace NetLower

/-- `n / d` to the nearest whole number, a half going to the even one. -/
def roundHalfEven (n d : Nat) : Nat :=
  let q := n / d
  let r := n % d
  if 2 * r < d then q
  else if d < 2 * r then q + 1
  else q + q % 2

/-- Field widths of a binary interchange format. -/
structure FloatFormat where
  exponentBits : Nat
  fractionBits : Nat
  deriving DecidableEq, Repr

/-- What a bit pattern stands for. -/
inductive FloatValue where
  /-- Not a number: its sign and its fraction field. -/
  | nan (negative : Bool) (payload : Nat)
  | infinite (negative : Bool)
  /-- The number `± significand · 2 ^ exponent`. -/
  | finite (negative : Bool) (significand : Nat) (exponent : Int)
  deriving DecidableEq, Repr

namespace FloatFormat

/-- Numbers of 16 bits. -/
def half : FloatFormat := ⟨5, 10⟩

/-- Numbers of 32 bits. -/
def single : FloatFormat := ⟨8, 23⟩

/-- Numbers of 64 bits. -/
def double : FloatFormat := ⟨11, 52⟩

/-- The largest exponent field, kept for infinities and NaN. -/
def topExponent (f : FloatFormat) : Nat := (1 <<< f.exponentBits) - 1

/-- Exponent of the last place of the smallest numbers. -/
def minExponent (f : FloatFormat) : Int :=
  2 - (1 <<< (f.exponentBits - 1) : Nat) - f.fractionBits

/-- The pattern of positive infinity. -/
def infinity (f : FloatFormat) : Nat := f.topExponent <<< f.fractionBits

/-- The bit that marks a negative number. -/
def signBit (f : FloatFormat) : Nat := 1 <<< (f.exponentBits + f.fractionBits)

/-- The sign bit of a number, set for a negative one. -/
def sign (f : FloatFormat) (negative : Bool) : Nat :=
  if negative then f.signBit else 0

/-- The exact value behind a bit pattern. -/
def decode (f : FloatFormat) (bits : Nat) : FloatValue :=
  let negative := bits / f.signBit % 2 == 1
  let field := (bits >>> f.fractionBits) % (1 <<< f.exponentBits)
  let fraction := bits % (1 <<< f.fractionBits)
  if field = f.topExponent then
    if fraction = 0 then .infinite negative else .nan negative fraction
  else if field = 0 then
    .finite negative fraction f.minExponent
  else
    .finite negative ((1 <<< f.fractionBits) + fraction) (f.minExponent + (field - 1 : Nat))

/-- The greatest `e` with `2 ^ e ≤ n / d`, for positive `n` and `d`. -/
def floorLog2 (n d : Nat) : Int :=
  let e : Int := (n.log2 : Int) - d.log2
  if d <<< e.toNat ≤ n <<< (-e).toNat then e else e - 1

/-- The pattern without sign nearest to `n / d`, a half going to the even one.
A quotient past the greatest number becomes infinity. -/
def roundMagnitude (f : FloatFormat) (n d : Nat) : Nat :=
  if n = 0 then 0
  else
    let place := max f.minExponent (floorLog2 n d - f.fractionBits)
    let units := roundHalfEven (n <<< (-place).toNat) (d <<< place.toNat)
    min f.infinity (((place - f.minExponent).toNat <<< f.fractionBits) + units)

/-- The pattern nearest to `± n / d`. -/
def round (f : FloatFormat) (negative : Bool) (n d : Nat) : Nat :=
  f.sign negative + f.roundMagnitude n d

/-- The pattern nearest to `± significand · 2 ^ exponent`. -/
def roundScaled (f : FloatFormat) (negative : Bool) (significand : Nat) (exponent : Int) : Nat :=
  f.round negative (significand <<< exponent.toNat) (1 <<< (-exponent).toNat)

/-- The fraction bit that marks a NaN as quiet. -/
def quietBit (f : FloatFormat) : Nat := 1 <<< (f.fractionBits - 1)

/-- A quiet NaN that keeps the given sign and as much payload as it has. -/
def quietNan (f : FloatFormat) (negative : Bool) (payload : Nat) : Nat :=
  f.sign negative + f.infinity + f.quietBit + payload % f.quietBit

/-- The NaN an operation without a result gives. -/
def invalid (f : FloatFormat) : Nat := f.quietNan true 0

/-- The nearest pattern to the product of two patterns. A NaN operand passes through. -/
def mul (f : FloatFormat) (a b : Nat) : Nat :=
  match f.decode a, f.decode b with
  | .nan s p, _ => f.quietNan s p
  | _, .nan s p => f.quietNan s p
  | .infinite s, .infinite t => f.sign (s != t) + f.infinity
  | .infinite s, .finite t m _ => if m = 0 then f.invalid else f.sign (s != t) + f.infinity
  | .finite s m _, .infinite t => if m = 0 then f.invalid else f.sign (s != t) + f.infinity
  | .finite s m e, .finite t n k => f.roundScaled (s != t) (m * n) (e + k)

/-- The nearest pattern to the quotient of two patterns. A NaN operand passes through. -/
def div (f : FloatFormat) (a b : Nat) : Nat :=
  match f.decode a, f.decode b with
  | .nan s p, _ => f.quietNan s p
  | _, .nan s p => f.quietNan s p
  | .infinite _, .infinite _ => f.invalid
  | .infinite s, .finite t _ _ => f.sign (s != t) + f.infinity
  | .finite s _ _, .infinite t => f.sign (s != t)
  | .finite s m e, .finite t n k =>
    if n = 0 then
      if m = 0 then f.invalid else f.sign (s != t) + f.infinity
    else
      let exponent := e - k
      f.round (s != t) (m <<< exponent.toNat) (n <<< (-exponent).toNat)

/-- The pattern of format `g` nearest to a pattern of format `f`. A NaN keeps
its sign and the top of its payload, and becomes quiet. -/
def convert (f g : FloatFormat) (bits : Nat) : Nat :=
  match f.decode bits with
  | .nan s p => g.quietNan s ((p <<< g.fractionBits) >>> f.fractionBits)
  | .infinite s => g.sign s + g.infinity
  | .finite s m e => g.roundScaled s m e

end FloatFormat

end NetLower
