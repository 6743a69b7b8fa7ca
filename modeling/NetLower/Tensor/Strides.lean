/-
What a stage asks of the distances between the elements of a tensor.  A
requirement has a rule for each memory position, innermost first.
-/
namespace NetLower

/-- The greatest rank of a tensor. -/
def maxRank : Nat := 5

/-- The rule for one memory position. -/
inductive StrideRule where
  | any
  /-- No padding before this position. -/
  | compact
  /-- The stride is a multiple of 16 bytes. -/
  | aligned
  deriving DecidableEq, Repr, Inhabited

namespace StrideRule

def name : StrideRule → String
  | any => "Any"
  | compact => "Compact"
  | aligned => "Aligned"

/-- The rule that meets both, if there is one. -/
def merge : StrideRule → StrideRule → Option StrideRule
  | any, b => some b
  | a, any => some a
  | a, b => if a = b then some a else none

end StrideRule

/-- A rule for each memory position. -/
structure StrideReq where
  rules : List StrideRule
  length_rules : rules.length = maxRank
  deriving DecidableEq, Repr

namespace StrideReq

/-- The same rule everywhere. -/
def uniform (rule : StrideRule) : StrideReq :=
  ⟨List.replicate maxRank rule, List.length_replicate⟩

/-- No rule anywhere. -/
def empty : StrideReq := uniform .any

/-- A densely packed tensor. -/
def compact : StrideReq := uniform .compact

instance : Inhabited StrideReq := ⟨empty⟩

/-- The rule of a position; beyond the last position there is none. -/
def get (r : StrideReq) (pos : Nat) : StrideRule := r.rules.getD pos .any

/-- The requirement with another rule at one position. Positions past the last are ignored. -/
def set (r : StrideReq) (pos : Nat) (rule : StrideRule) : StrideReq :=
  ⟨r.rules.set pos rule, by rw [List.length_set, r.length_rules]⟩

/-- The rules that meet two lists of rules, if they do not conflict. -/
def mergeRules : List StrideRule → List StrideRule → Option (List StrideRule)
  | a :: as, b :: bs => do
    let rule ← a.merge b
    let rest ← mergeRules as bs
    some (rule :: rest)
  | _, _ => some []

theorem length_mergeRules {as bs cs : List StrideRule} (len : as.length = bs.length)
    (h : mergeRules as bs = some cs) : cs.length = as.length := by
  induction as generalizing bs cs with
  | nil => cases bs <;> simp_all [mergeRules]
  | cons a as ih =>
    cases bs with
    | nil => simp at len
    | cons b bs =>
      simp only [mergeRules, bind, Option.bind_eq_some_iff, Option.some.injEq] at h
      obtain ⟨_, _, rest, hrest, rfl⟩ := h
      simpa using ih (by simpa using len) hrest

/-- The requirement that meets two requirements, if they do not conflict. -/
def merge (a b : StrideReq) : Option StrideReq :=
  match h : mergeRules a.rules b.rules with
  | none => none
  | some rules =>
    some ⟨rules, by rw [length_mergeRules (by rw [a.length_rules, b.length_rules]) h, a.length_rules]⟩

/-- Whether strides that meet `a` also meet `b`. -/
def satisfies (a b : StrideReq) : Bool :=
  (a.rules.zip b.rules).all fun (mine, theirs) => theirs == .any || mine == theirs

end StrideReq

end NetLower
