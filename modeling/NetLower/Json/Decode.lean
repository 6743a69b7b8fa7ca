/-
Reading values of a certain type out of JSON.  A reader gives nothing where the
value does not have its type.
-/
import NetLower.Json.Basic

namespace NetLower.Json

def text? : Json → Option String
  | text value => value
  | _ => none

/-- The nearest 32-bit number. -/
def float? : Json → Option F32
  | number value => value.map JsonNumber.toF32
  | _ => none

/-- A whole number from `lo` to `hi`. -/
def intWithin? (lo hi : Int) : Json → Option Int
  | number (some (.int value)) => if lo ≤ value ∧ value ≤ hi then some value else none
  | _ => none

/-- A whole number below a bound. -/
def natBelow? (bound : Nat) (j : Json) : Option Nat :=
  (j.intWithin? 0 ((bound : Int) - 1)).map Int.toNat

/-- A list of values. -/
def list? (read : Json → Option α) : Json → Option (List α)
  | list items => items.mapM read
  | _ => none

/-- A value, or nothing for `null`. -/
def optional? (read : Json → Option α) : Json → Option (Option α)
  | null => some none
  | j => (read j).map some

/-- One of several words. A record with the word as its only key and nothing behind it stands
for the word too. -/
def word? (all : List α) (name : α → String) : Json → Option α
  | text (some s) => all.find? fun a => name a == s
  | record [(some s, null)] => all.find? fun a => name a == s
  | _ => none

/-- The fields of a record with a name among `names`; none of them may be given twice. -/
def namedFields? (names : List String) :
    List (Option String × Json) → Option (List (String × Json))
  | [] => some []
  | (none, _) :: _ => none
  | (some key, value) :: rest => do
    let fields ← namedFields? names rest
    if !names.contains key then return fields
    else if (fields.lookup key).isSome then none
    else return (key, value) :: fields

/-- The values of named fields, in the order of the names. They are written as a record, where
other fields do not matter, or as a list, where fields may be left out at the end only, and
only from number `required` on. -/
def fields? (names : List String) (required : Nat) : Json → Option (List (Option Json))
  | list items =>
    if required ≤ items.length ∧ items.length ≤ names.length then
      some (items.map some ++ List.replicate (names.length - items.length) none)
    else none
  | record fields => do
    let fields ← namedFields? names fields
    return names.map fun name => fields.lookup name
  | _ => none

end NetLower.Json
