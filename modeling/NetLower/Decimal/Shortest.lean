/-
The decimal text of a 32-bit number starts from the fewest digits that read back
as that number.  A number stands for an interval of reals, those that round to
it; the digits are a point of the coarsest power-of-ten grid that meets the
interval, and of two such points the nearer one.
-/
import NetLower.Float.Single

namespace NetLower.Decimal

/-- Which of two equally near grid points is taken. -/
inductive Tie where
  | up
  | even
  deriving DecidableEq, Repr

/-- The reals that round to `significand · 2 ^ exponent`, in quarters of the
last place: the number itself is `4 · significand` quarters. -/
structure Interval where
  low : Nat
  number : Nat
  high : Nat
  /-- Whether the two ends belong to the interval. -/
  closed : Bool
  /-- The exponent of a quarter. -/
  exponent : Int

/-- The interval of a positive 32-bit number. Below a power of two the gap is half as wide. -/
def Interval.ofSingle (significand : Nat) (exponent : Int) : Interval :=
  let narrow := significand == 1 <<< FloatFormat.single.fractionBits
    && exponent != FloatFormat.single.minExponent
  { low := 4 * significand - (if narrow then 1 else 2)
    number := 4 * significand
    high := 4 * significand + 2
    closed := significand % 2 == 0
    exponent := exponent - 2 }

/-- A point `digits · 10 ^ power` of a power-of-ten grid. -/
structure Point where
  digits : Nat
  power : Int
  deriving DecidableEq, Repr

/-- The point of the grid of `10 ^ power` that stands for the interval, if the grid meets it. -/
def Interval.pointOn? (i : Interval) (tie : Tie) (power : Int) : Option Point :=
  -- A count `d` of grid steps and a count `q` of quarters compare as `d * step` and `q * quarter`.
  let step := Nat.pow 10 power.toNat <<< (-i.exponent).toNat
  let quarter := Nat.pow 10 (-power).toNat <<< i.exponent.toNat
  let inside (d : Nat) : Bool :=
    if i.closed then i.low * quarter ≤ d * step && d * step ≤ i.high * quarter
    else i.low * quarter < d * step && d * step < i.high * quarter
  let below := i.number * quarter / step
  let above := below + 1
  if inside below && inside above then
    let toBelow := i.number * quarter - below * step
    let toAbove := above * step - i.number * quarter
    let takeBelow :=
      if toBelow = toAbove then tie == .even && below % 2 == 0 else decide (toBelow < toAbove)
    some ⟨if takeBelow then below else above, power⟩
  else if inside below then some ⟨below, power⟩
  else if inside above then some ⟨above, power⟩
  else none

/-- The greatest power of ten a grid for 32-bit numbers needs. -/
def maxPower : Int := 39

/-- The number of grids from `10 ^ 39` down to the one every interval meets. -/
def gridCount : Nat := 100

/-- A point without trailing zeros. -/
def Point.strip (p : Point) : Point :=
  if p.digits ≠ 0 ∧ p.digits % 10 = 0 then strip ⟨p.digits / 10, p.power + 1⟩ else p
termination_by p.digits
decreasing_by omega

/-- The fewest digits that read back as the positive number `significand · 2 ^ exponent`. -/
def shortest (tie : Tie) (significand : Nat) (exponent : Int) : Point :=
  let interval := Interval.ofSingle significand exponent
  let grids := (List.range gridCount).map fun (k : Nat) => maxPower - k
  match grids.findSome? (interval.pointOn? tie) with
  | some point => point.strip
  | none => ⟨0, 0⟩

end NetLower.Decimal
