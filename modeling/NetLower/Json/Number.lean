/-
Numbers of a JSON text.  A numeral without point and exponent that fits 64 bits is
a whole number; every other numeral, and `-0`, is a 64-bit floating-point number.
-/
import NetLower.Float.Double

namespace NetLower

/-- A number of a JSON text. -/
inductive JsonNumber where
  | int (value : Int)
  | float (value : F64)
  deriving DecidableEq, Repr

namespace JsonNumber

/-- The nearest 32-bit number. -/
def toF32 : JsonNumber → F32
  | int value => F32.ofInt value
  | float value => value.toSingle

/-- The parts of a numeral. -/
structure Numeral where
  negative : Bool
  whole : List Char
  /-- The digits behind the point, if there is one. -/
  fraction : Option (List Char)
  exponent : Option Int

def digitValue (c : Char) : Nat := c.toNat - '0'.toNat

/-- The number a list of digits spells. -/
def valueOf (digits : List Char) : Nat := digits.foldl (fun n c => 10 * n + digitValue c) 0

/-- Digits without a superfluous zero in front. -/
def isWhole : List Char → Bool
  | [] => false
  | ['0'] => true
  | c :: rest => c != '0' && (c :: rest).all Char.isDigit

/-- At least one digit, and nothing else. -/
def isDigits (cs : List Char) : Bool := !cs.isEmpty && cs.all Char.isDigit

/-- The number behind an exponent mark. -/
def exponentOf? (cs : List Char) : Option Int :=
  match cs with
  | '-' :: digits => if isDigits digits then some (-(valueOf digits : Int)) else none
  | '+' :: digits => if isDigits digits then some (valueOf digits) else none
  | digits => if isDigits digits then some (valueOf digits) else none

def isExponentMark (c : Char) : Bool := c == 'e' || c == 'E'

/-- The parts of a numeral, if it is well formed. -/
def Numeral.ofText? (cs : List Char) : Option Numeral := do
  let (negative, cs) := match cs with
    | '-' :: rest => (true, rest)
    | cs => (false, cs)
  let (mantissa, tail) := cs.span fun c => !isExponentMark c
  let exponent ← match tail with
    | [] => some none
    | _ :: digits => (exponentOf? digits).map some
  let (whole, tail) := mantissa.span (· != '.')
  let fraction ← match tail with
    | [] => some none
    | _ :: digits => if isDigits digits then some (some digits) else none
  if isWhole whole then some { negative, whole, fraction, exponent } else none

/-- The bound of the digits that are kept exactly. -/
def digitRange : Nat := UInt64.size

/-- The number that digits spell behind those of `n`, as long as it fits 64 bits, and how many
digits that took. -/
def takeDigits (n : Nat) : List Char → Nat × Nat
  | [] => (n, 0)
  | c :: rest =>
    let next := 10 * n + digitValue c
    if next < digitRange then
      let (total, count) := takeDigits next rest
      (total, count + 1)
    else (n, 0)

/-- The floating-point number nearest to a numeral, if it is in range. Digits that do not fit
64 bits are dropped; those of the whole part count in the exponent. -/
def Numeral.toFloat? (n : Numeral) : Option F64 := do
  let (kept, wholeCount) := takeDigits 0 n.whole
  let (kept, fractionCount) := takeDigits kept (n.fraction.getD [])
  let exponent := (n.whole.length - wholeCount : Nat) - (fractionCount : Int) + n.exponent.getD 0
  let magnitude ← F64.ofDecimal? kept exponent
  return if n.negative then magnitude.neg else magnitude

/-- The whole number a numeral stands for, if it is one of 64 bits. -/
def Numeral.toInt? (n : Numeral) : Option Int :=
  if n.fraction.isSome || n.exponent.isSome then none
  else
    let value := valueOf n.whole
    if n.negative then
      if 0 < value ∧ value ≤ UInt64.size / 2 then some (-(value : Int)) else none
    else if value < UInt64.size then some value
    else none

/-- The number a numeral stands for, if it is in range. -/
def Numeral.value? (n : Numeral) : Option JsonNumber :=
  match n.toInt? with
  | some value => some (.int value)
  | none => n.toFloat?.map .float

end JsonNumber

end NetLower
