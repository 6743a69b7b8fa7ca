/-
Checks: operations whose only result is that they do not fail.
-/
import NetLower.Error

namespace NetLower.Outcome

/-- Fail with an error unless a condition holds. -/
def require (condition : Prop) [Decidable condition] (otherwise : Error) : Outcome Unit :=
  if condition then .ok () else .error otherwise

theorem require_eq_ok {condition : Prop} [Decidable condition] {otherwise : Error} :
    require condition otherwise = .ok () ↔ condition := by
  unfold require
  split <;> simp_all

/-- Whether an operation has a result. -/
def check (outcome : Outcome α) : Outcome Unit := outcome.map fun _ => ()

theorem check_eq_ok {outcome : Outcome α} : check outcome = .ok () ↔ ∃ a, outcome = .ok a := by
  cases outcome <;> simp [check, Except.map]

/-- Make a check for every member of a list; the first failure counts. -/
def forEach : List α → (α → Outcome Unit) → Outcome Unit
  | [], _ => .ok ()
  | a :: rest, f =>
    match f a with
    | .ok () => forEach rest f
    | .error e => .error e

theorem forEach_eq_ok {items : List α} {f : α → Outcome Unit} :
    forEach items f = .ok () ↔ ∀ a ∈ items, f a = .ok () := by
  induction items with
  | nil => simp [forEach]
  | cons a rest ih =>
    cases h : f a with
    | error e => simp [forEach, h]
    | ok u => simp [forEach, h, ih]

end NetLower.Outcome
