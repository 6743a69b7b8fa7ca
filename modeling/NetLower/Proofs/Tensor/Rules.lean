/-
What rules for strides come to in bytes.  A merged requirement has the rules of both its
parts; strides that are computed for a requirement leave no gap where nothing has to be
aligned, and are multiples of the alignment where something has.
-/
import Mathlib.Data.List.GetD
import NetLower.Proofs.Tensor.Places

namespace NetLower

/-! ## Requirements -/

namespace StrideRule

variable {a b c : StrideRule}

/-- A merged rule is the rule of either part that has one. -/
theorem merge_eq_some (h : a.merge b = some c) : (a ≠ .any → c = a) ∧ (b ≠ .any → c = b) := by
  revert h
  cases a <;> cases b <;> cases c <;> decide

end StrideRule

namespace StrideReq

variable {a b c r : StrideReq}

theorem getD_mergeRules : ∀ {as bs cs : List StrideRule}, as.length = bs.length → mergeRules as bs = some cs → ∀ p,
    (as.getD p .any ≠ .any → cs.getD p .any = as.getD p .any) ∧
      (bs.getD p .any ≠ .any → cs.getD p .any = bs.getD p .any)
  | [], [], _, _, _, p => by simp
  | a :: as, b :: bs, cs, hlen, h, p => by
    simp only [mergeRules, bind, Option.bind_eq_some_iff, Option.some.injEq] at h
    obtain ⟨c, hc, rest, hrest, rfl⟩ := h
    cases p with
    | zero => exact StrideRule.merge_eq_some hc
    | succ p => exact getD_mergeRules (Nat.succ.inj hlen) hrest p

/-- A requirement covers another if it has every rule of the other. -/
def Covers (a b : StrideReq) : Prop := ∀ p, b.get p ≠ .any → a.get p = b.get p

theorem Covers.refl : a.Covers a := fun _ _ => rfl

theorem Covers.trans (h : a.Covers b) (h' : b.Covers c) : a.Covers c := by
  intro p hp
  have hb := h' p hp
  exact (h p (hb ▸ hp)).trans hb

theorem covers_of_merge (h : a.merge b = some c) : c.Covers a ∧ c.Covers b := by
  have hrules : mergeRules a.rules b.rules = some c.rules := by
    unfold merge at h
    split at h
    · cases h
    next hrules =>
      cases h
      exact hrules
  have hget := getD_mergeRules (by rw [a.length_rules, b.length_rules]) hrules
  exact ⟨fun p => (hget p).1, fun p => (hget p).2⟩

theorem get_of_le {p : Nat} (h : maxRank ≤ p) : a.get p = .any := by
  rw [get, List.getD_eq_default _ _ (by rw [a.length_rules]; exact h)]

theorem get_compact {p : Nat} (h : p < maxRank) : compact.get p = .compact := by
  unfold get compact uniform
  rw [List.getD_replicate _ h]

/-- Only a dense requirement covers a dense one. -/
theorem Covers.eq_compact (h : a.Covers compact) : a = compact := by
  have hrules : a.rules = compact.rules := by
    refine List.ext_getElem (by rw [a.length_rules, compact.length_rules]) fun p hp hp' => ?_
    have hmax : p < maxRank := a.length_rules ▸ hp
    have hget := h p (by rw [get_compact hmax]; decide)
    rwa [get, get, List.getD_eq_getElem _ _ hp, List.getD_eq_getElem _ _ hp'] at hget
  cases a
  cases hrules
  rfl

/-- Strides that are computed for the one requirement meet the other. -/
def Serves (a b : StrideReq) : Prop :=
  ∀ p, (b.get p = .compact → a.get p ≠ .aligned) ∧ (b.get p = .aligned → a.get p = .aligned)

theorem Covers.serves (h : a.Covers b) : a.Serves b := by
  intro p
  constructor
  · intro hb ha
    rw [h p (by rw [hb]; decide), hb] at ha
    cases ha
  · intro hb
    rw [h p (by rw [hb]; decide), hb]

/-- Where nothing is asked for, strides are dense. -/
theorem empty_serves_compact : empty.Serves compact := by
  have none_at (p : Nat) : empty.get p = .any := by
    by_cases hp : p < maxRank
    · unfold get empty uniform
      rw [List.getD_replicate _ hp]
    · exact get_of_le (Nat.le_of_not_lt hp)
  intro p
  refine ⟨fun _ => by rw [none_at]; decide, fun h => ?_⟩
  by_cases hp : p < maxRank
  · rw [get_compact hp] at h
    cases h
  · rw [get_of_le (Nat.le_of_not_lt hp)] at h
    cases h

end StrideReq

/-! ## Strides in bytes -/

/-- The bytes that the elements within a memory position fill. -/
def room (element : Nat) (sizes strides : List Nat) : Nat → Nat
  | 0 => element
  | p + 1 => strides.getD p 0 * sizes.getD p 0

theorem room_cons (element size stride : Nat) (sizes strides : List Nat) (p : Nat) :
    room element (size :: sizes) (stride :: strides) (p + 1) = room (stride * size) sizes strides p := by
  cases p <;> rfl

namespace Desc

variable {t : Desc} {req r : StrideReq} {strides : List Nat}

/-- Strides meet a requirement: where it asks for it there is no gap, or the stride is aligned and
leaves room. -/
def Meets (t : Desc) (strides : List Nat) (req : StrideReq) : Prop :=
  strides.length = t.rank ∧ ∀ p < t.rank,
    (req.get p = .compact → strides.getD p 0 = room t.dtype.size t.memorySizes strides p) ∧
      (req.get p = .aligned → 0 < p →
        strideAlignment ∣ strides.getD p 0 ∧ room t.dtype.size t.memorySizes strides p ≤ strides.getD p 0)

/-- Only an alignment makes a gap. -/
theorem stridesFrom_gap {p : Nat} : ∀ {sizes strides : List Nat} {pos next : Nat},
    stridesFrom req pos next sizes = .ok strides → p < sizes.length →
      (0 < pos + p ∧ req.get (pos + p) = .aligned →
        strideAlignment ∣ strides.getD p 0 ∧ room next sizes strides p ≤ strides.getD p 0) ∧
      (¬(0 < pos + p ∧ req.get (pos + p) = .aligned) → strides.getD p 0 = room next sizes strides p)
  | [], _, _, _, _, hp => absurd hp (Nat.not_lt_zero p)
  | size :: sizes, strides, pos, next, h, hp => by
    obtain ⟨stride, hstride, _, rest, hrest, rfl⟩ := stridesFrom_cons h
    cases p with
    | zero =>
      rw [Nat.add_zero]
      constructor
      · intro haligned
        rw [if_pos haligned] at hstride
        exact Size.alignUp_eq_ok (by decide) hstride
      · intro haligned
        rw [if_neg haligned] at hstride
        cases hstride
        rfl
    | succ p =>
      rw [room_cons, List.getD_cons_succ, show pos + (p + 1) = pos + 1 + p by omega]
      exact stridesFrom_gap hrest (Nat.lt_of_succ_lt_succ hp)

/-- Computed strides meet what the requirement serves. -/
theorem meets_of_strides (h : t.strides req = .ok strides) (hserves : req.Serves r) : t.Meets strides r := by
  refine ⟨length_strides h, fun p hp => ?_⟩
  rw [← t.length_memory, t.memorySizes_eq.length_eq] at hp
  obtain ⟨aligned, dense⟩ := stridesFrom_gap h hp
  rw [Nat.zero_add] at aligned dense
  obtain ⟨hcompact, haligned⟩ := hserves p
  exact ⟨fun hr => dense fun ha => hcompact hr ha.2, fun hr hpos => aligned ⟨hpos, haligned hr⟩⟩

/-- Where rows are aligned and dense, so is everything made of rows. -/
theorem Meets.strides_aligned (h : t.Meets strides req) (hrow : req.get 1 = .aligned)
    (hdense : ∀ p, 1 < p → p < t.rank → req.get p = .compact) : ∀ p, 0 < p → p < t.rank →
      strideAlignment ∣ strides.getD p 0
  | 0, hp, _ => absurd hp (Nat.lt_irrefl 0)
  | 1, _, hlt => ((h.2 1 hlt).2 hrow Nat.one_pos).1
  | p + 2, _, hlt => by
    rw [(h.2 (p + 2) hlt).1 (hdense (p + 2) (by omega) hlt)]
    exact Dvd.dvd.mul_right (h.strides_aligned hrow hdense (p + 1) (by omega) (by omega)) _

end Desc

end NetLower
