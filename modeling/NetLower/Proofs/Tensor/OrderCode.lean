/-
Order codes.  The digits of a code are those of the dimensions it was packed from, so an
order is read back from its code; and the codes of all orders fit a word.
-/
import Mathlib.Algebra.GroupWithZero.Nat
import Mathlib.Data.List.Perm.Subperm
import NetLower.Proofs.Outcome
import NetLower.Tensor.Order

namespace NetLower.Order

theorem digit_pos (x : Dim) : 0 < x.digit := by cases x <;> decide

theorem digit_lt (x : Dim) : x.digit < 16 := by cases x <;> decide

theorem digits_pack (dims : List Dim) : digits (pack dims) = dims.map Dim.digit := by
  induction dims with
  | nil => rw [pack, digits, if_pos rfl, List.map_nil]
  | cons x dims ih =>
    have hpos := digit_pos x
    have hlt := digit_lt x
    have hmod : pack (x :: dims) % 16 = x.digit := by
      rw [pack]
      omega
    have hdiv : pack (x :: dims) / 16 = pack dims := by
      rw [pack]
      omega
    have hne : pack (x :: dims) ≠ 0 := by
      rw [pack]
      omega
    rw [digits, if_neg hne, hmod, hdiv, ih, List.map_cons]

/-- The digits of different dimensions are collected one by one. -/
theorem collect_digits {code : Nat} {dims seen : List Dim} (hnodup : dims.Nodup) (hnew : ∀ x ∈ dims, x ∉ seen) :
    collect code (dims.map Dim.digit) seen = .ok (seen.reverse ++ dims) := by
  induction dims generalizing seen with
  | nil => simp [collect]
  | cons x dims ih =>
    obtain ⟨hx, hrest⟩ := List.nodup_cons.1 hnodup
    have hnew' : ∀ y ∈ dims, y ∉ x :: seen := by
      intro y hy hmem
      rcases List.mem_cons.1 hmem with rfl | hmem
      · exact hx hy
      · exact hnew y (by simp [hy]) hmem
    rw [List.map_cons, collect, Dim.ofDigit?_digit]
    simp only
    rw [if_neg (hnew x (by simp)), ih hrest hnew']
    simp

/-- An order is read back from its code. -/
theorem ofCode_code (o : Order) : ofCode o.code = .ok o := by
  have hcollect : collect o.code (digits o.code) [] = .ok o.memory := by
    rw [code, digits_pack, collect_digits o.nodup (by simp)]
    rfl
  refine Outcome.bind_eq_ok.2 ⟨o.memory, hcollect, ?_⟩
  exact dif_pos ⟨o.nodup, o.nonempty⟩

theorem digit_of_ofDigit? {digit : Nat} {x : Dim} (h : Dim.ofDigit? digit = some x) : x.digit = digit := by
  unfold Dim.ofDigit? at h
  split at h <;> cases h <;> rfl

/-- The dimensions that are collected have the digits. -/
theorem map_digit_of_collect {code : Nat} {digits : List Nat} {seen memory : List Dim}
    (h : collect code digits seen = .ok memory) :
    ∃ dims, dims.map Dim.digit = digits ∧ memory = seen.reverse ++ dims := by
  induction digits generalizing seen with
  | nil =>
    cases h
    exact ⟨[], rfl, by simp⟩
  | cons digit digits ih =>
    rw [collect] at h
    split at h
    · cases h
    next x hx =>
      split at h
      · cases h
      · obtain ⟨dims, hdigits, rfl⟩ := ih h
        exact ⟨x :: dims, by rw [List.map_cons, digit_of_ofDigit? hx, hdigits], by simp⟩

/-- A code is packed from the dimensions with its digits. -/
theorem pack_of_digits {dims : List Dim} {code : Nat} (h : dims.map Dim.digit = digits code) :
    pack dims = code := by
  induction dims generalizing code with
  | nil =>
    rw [digits] at h
    split at h
    next hzero => rw [pack, hzero]
    · cases h
  | cons x dims ih =>
    rw [digits] at h
    split at h
    · cases h
    · rw [List.map_cons, List.cons.injEq] at h
      rw [pack, ih h.2]
      omega

/-- What a code is read as has this code. -/
theorem code_of_ofCode {code : Nat} {o : Order} (h : ofCode code = .ok o) : o.code = code := by
  obtain ⟨memory, hcollect, h⟩ := Outcome.bind_eq_ok.1 h
  obtain ⟨dims, hdigits, rfl⟩ := map_digit_of_collect hcollect
  split at h
  · cases h
    exact pack_of_digits hdigits
  · cases h

theorem pack_lt (dims : List Dim) : pack dims < 16 ^ dims.length := by
  induction dims with
  | nil => decide
  | cons x dims ih =>
    have hlt := digit_lt x
    rw [pack, List.length_cons, Nat.pow_succ]
    omega

theorem length_le (o : Order) : o.memory.length ≤ 5 := by
  have hall : o.memory ⊆ Dim.all := fun x _ => by cases x <;> decide
  exact (List.subperm_of_subset o.nodup hall).length_le

/-- Every code fits a word. -/
theorem code_lt (o : Order) : o.code < UInt32.size :=
  calc o.code < 16 ^ o.memory.length := pack_lt o.memory
    _ ≤ 16 ^ 5 := Nat.pow_le_pow_right (by decide) o.length_le
    _ < UInt32.size := by decide

end NetLower.Order
