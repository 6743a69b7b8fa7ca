/-
How a decimal is laid out as text.  A notation says which magnitudes are written
without an exponent, whether a whole number shows a point, and how an exponent
is signed; the digits are the same in every notation.
-/
import NetLower.Decimal.Shortest

namespace NetLower

/-- The decisions of one text form of numbers. -/
structure Notation where
  /-- Least and greatest decimal exponent written in plain form; `none` is no bound. -/
  plain : Option (Int × Int)
  /-- Whether a whole number in plain form ends in `.0`. -/
  keepPoint : Bool
  /-- What stands before a positive exponent. -/
  plus : String
  tie : Decimal.Tie

namespace Notation

/-- Running text: no exponents and no bare point, as in `4`, `0.1` or `100000`. -/
def display : Notation := ⟨none, false, "", .up⟩

/-- Values quoted in messages: `2.0`, `0.0001`, `1e-5`, `1.5e17`. -/
def quoted : Notation := ⟨some (-4, 15), true, "", .up⟩

/-- Numbers of a network text: `2.0`, `0.000001`, `1e-7`, `1.5e+13`. -/
def network : Notation := ⟨some (-6, 12), true, "+", .even⟩

/-- The decimal digits of a whole number. -/
def digitsOf (n : Nat) : List Char := Nat.toDigits 10 n

/-- A point in plain form. -/
def plainText (keepPoint : Bool) (p : Decimal.Point) : String :=
  let digits := digitsOf p.digits
  let tail := if keepPoint then ".0" else ""
  if 0 ≤ p.power then
    String.ofList (digits ++ List.replicate p.power.toNat '0') ++ tail
  else
    let places := (-p.power).toNat
    let padded := List.replicate (places + 1 - digits.length) '0' ++ digits
    let whole := padded.length - places
    String.ofList (padded.take whole) ++ "." ++ String.ofList (padded.drop whole)

/-- A point as its leading digit, the rest behind a point, and an exponent. -/
def exponentText (plus : String) (p : Decimal.Point) (exponent : Int) : String :=
  let mantissa := match digitsOf p.digits with
    | [] => "0"
    | [d] => String.ofList [d]
    | d :: rest => String.ofList (d :: '.' :: rest)
  let mark := if 0 ≤ exponent then plus else "-"
  mantissa ++ "e" ++ mark ++ String.ofList (digitsOf exponent.natAbs)

/-- The text of a positive decimal. -/
def positiveText (n : Notation) (p : Decimal.Point) : String :=
  let exponent := p.power + ((digitsOf p.digits).length - 1 : Nat)
  match n.plain with
  | none => plainText n.keepPoint p
  | some (least, greatest) =>
    if least ≤ exponent ∧ exponent ≤ greatest then plainText n.keepPoint p
    else exponentText n.plus p exponent

/-- The text of a number. -/
def text (n : Notation) (x : F32) : String :=
  match x.value with
  | .nan _ _ => "NaN"
  | .infinite negative => if negative then "-inf" else "inf"
  | .finite negative m e =>
    let magnitude :=
      if m = 0 then (if n.keepPoint then "0.0" else "0")
      else n.positiveText (Decimal.shortest n.tie m e)
    if negative then "-" ++ magnitude else magnitude

end Notation

end NetLower
