/-
Reading orders from codes and from lists of dimensions.
-/
import NetLower.Error

namespace NetLower.Order

/-- The base-16 digits of a code, lowest first. -/
def digits (code : Nat) : List Nat :=
  if code = 0 then [] else code % 16 :: digits (code / 16)
termination_by code
decreasing_by omega

/-- The dimensions behind the digits of a code, given those already seen, last first. -/
def collect (code : Nat) : List Nat → List Dim → Outcome (List Dim)
  | [], seen => .ok seen.reverse
  | digit :: rest, seen =>
    match Dim.ofDigit? digit with
    | none => .error (.shape (.orderCode code))
    | some dim =>
      if dim ∈ seen then .error (.shape (.repeatedDim code dim))
      else collect code rest (dim :: seen)

/-- The order with a code. Unknown and repeated digits are refused. -/
def ofCode (code : Nat) : Outcome Order := do
  let memory ← collect code (digits code) []
  if h : memory.Nodup ∧ memory ≠ [] then
    .ok { memory, nodup := h.1, nonempty := h.2 }
  else .error (.shape (.orderCode code))

/-- The number of digits a code has room for. -/
def maxDigits : Nat := 8

/-- The order of dimensions listed outermost first. -/
def ofDims (dims : List Dim) : Outcome Order :=
  if maxDigits < dims.length then .error (.fault .shift)
  else ofCode (pack dims.reverse)

/-- The logical order of a rank. -/
def canonical (rank : Nat) : Outcome Order :=
  match canonical? rank with
  | some order => .ok order
  | none => .error (.shape (.rank rank))

/-- The channel-innermost order of a rank. -/
def interleaved (rank : Nat) : Outcome Order :=
  match interleaved? rank with
  | some order => .ok order
  | none => .error (.shape (.rank rank))

end NetLower.Order
