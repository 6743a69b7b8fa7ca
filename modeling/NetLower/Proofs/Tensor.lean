/-
Tensor descriptors under the changes that passes make to them.  A new order leaves type
and sizes alone, and a new size leaves type and rank alone; computing with sizes gives
what it should, and can be stopped by nothing but a size.
-/
import Mathlib.Algebra.BigOperators.Group.List.Basic
import NetLower.Proofs.Outcome
import NetLower.Tensor.Desc

namespace NetLower

open Outcome (FailsOnly Runs)

namespace Size

variable {a b c : Nat}

/-- A product that is computed is the product. -/
theorem mul_eq_ok (h : mul a b = .ok c) : c = a * b := by
  unfold mul at h
  split at h
  · exact (Except.ok.inj h).symm
  · cases h

theorem lt_of_mul (h : mul a b = .ok c) : c < range := by
  unfold mul at h
  split at h
  next hlt => exact Except.ok.inj h ▸ hlt
  · cases h

theorem add_eq_ok (h : add a b = .ok c) : c = a + b := by
  unfold add at h
  split at h
  · exact (Except.ok.inj h).symm
  · cases h

/-- An aligned size is a multiple, and not less than the size. -/
theorem alignUp_eq_ok {size unit aligned : Nat} (hunit : 0 < unit) (h : alignUp size unit = .ok aligned) :
    unit ∣ aligned ∧ size ≤ aligned := by
  rw [mul_eq_ok h]
  refine ⟨Nat.dvd_mul_left _ _, ?_⟩
  have := Nat.div_add_mod (size + (unit - 1)) unit
  have := Nat.mod_lt (size + (unit - 1)) hunit
  rw [ceilDiv, Nat.mul_comm]
  omega

/-- A product of a list that is computed is the product. -/
theorem product_eq_ok {sizes : List Nat} (h : product sizes = .ok c) : c = sizes.prod := by
  have from_acc : ∀ {sizes : List Nat} {start : Nat}, sizes.foldlM mul start = Except.ok c →
      c = start * sizes.prod := by
    intro sizes
    induction sizes with
    | nil =>
      intro start h
      cases h
      simp
    | cons size sizes ih =>
      intro start h
      simp only [List.foldlM_cons, Outcome.bind_eq_ok] at h
      obtain ⟨next, hnext, h⟩ := h
      rw [ih h, mul_eq_ok hnext, List.prod_cons, Nat.mul_assoc]
  simpa using from_acc h

end Size

/-- In a table with different keys every entry is found by its key. -/
theorem lookup_of_mem [BEq α] [LawfulBEq α] {table : List (α × β)} {a : α} {b : β}
    (hnodup : (table.map Prod.fst).Nodup) (h : (a, b) ∈ table) : table.lookup a = some b := by
  obtain ⟨front, back, rfl⟩ := List.append_of_mem h
  refine List.lookup_eq_some_iff.2 ⟨front, back, rfl, fun p hp => ?_⟩
  rw [List.map_append, List.nodup_append] at hnodup
  exact bne_iff_ne.2 fun heq => hnodup.2.2 p.1 (List.mem_map_of_mem hp) a (by simp) heq.symm

theorem mem_of_lookup [BEq α] [LawfulBEq α] {table : List (α × β)} {a : α} {b : β} (h : table.lookup a = some b) :
    (a, b) ∈ table := by
  obtain ⟨front, back, rfl, _⟩ := List.lookup_eq_some_iff.1 h
  simp

namespace Desc

variable {t t' : Desc} {order : Order}

attribute [ext] Desc

/-! ## Orders -/

/-- Memory can run through the tensor in this order. -/
def Allows (t : Desc) (order : Order) : Prop := t.canonical.sameDims order = true

theorem allows_order (t : Desc) : t.Allows t.order := by
  obtain ⟨c, hc, hp⟩ := t.fits
  rw [t.canonical_eq, Option.some.injEq] at hc
  rw [Allows, hc]
  exact hp

theorem canonical_congr (h : t'.rank = t.rank) : t'.canonical = t.canonical := by
  have := t'.canonical_eq
  rw [show t'.dims.length = t.dims.length from h, t.canonical_eq, Option.some.injEq] at this
  exact this.symm

/-- Which orders are allowed is a matter of the rank. -/
theorem Allows.congr (ha : t.Allows order) (h : t'.rank = t.rank) : t'.Allows order := by
  rw [Allows, canonical_congr h]
  exact ha

theorem Allows.trans {order' : Order} (ha : t.Allows order) (h : order.sameDims order' = true) :
    t.Allows order' :=
  List.isPerm_iff.2 ((List.isPerm_iff.1 ha).trans (List.isPerm_iff.1 h))

theorem canonical_eq_ok (t : Desc) : Order.canonical t.rank = .ok t.canonical := by
  unfold Order.canonical rank
  rw [t.canonical_eq]

theorem allows_canonical (t : Desc) : t.Allows t.canonical := Order.sameDims_self _

/-- Every tensor has a channel-innermost order. -/
theorem interleaved_eq_ok (t : Desc) : ∃ order, Order.interleaved t.rank = .ok order ∧ t.Allows order := by
  have hc := t.canonical_eq
  unfold Allows Order.interleaved rank
  generalize t.dims.length = rank at hc
  unfold Order.canonical? at hc
  split at hc <;> simp only [Option.some.injEq, reduceCtorEq] at hc <;> rw [← hc]
  · exact ⟨.c, rfl, rfl⟩
  · exact ⟨.nc, rfl, rfl⟩
  · exact ⟨.hwc, rfl, rfl⟩
  · exact ⟨.nhwc, rfl, rfl⟩
  · exact ⟨.ndhwc, rfl, rfl⟩

theorem setOrder_eq_ok (h : t.setOrder order = .ok t') :
    t'.dtype = t.dtype ∧ t'.dims = t.dims ∧ t'.order = order := by
  unfold setOrder at h
  split at h
  · cases h
    exact ⟨rfl, rfl, rfl⟩
  · cases h

theorem Allows.setOrder (h : t.Allows order) : ∃ t', t.setOrder order = .ok t' := by
  unfold Desc.setOrder
  rw [dif_pos (show t.canonical.sameDims order = true from h)]
  exact ⟨_, rfl⟩

theorem new_eq_ok {dtype : ElementType} {dims : List Nat} {t : Desc} (h : new dtype dims = .ok t) :
    t.dtype = dtype ∧ t.dims = dims ∧ Order.canonical? dims.length = some t.order := by
  unfold Desc.new at h
  split at h
  · cases h
  next order horder =>
    split at h
    · cases h
    · cases h
      exact ⟨rfl, rfl, horder⟩

/-! ## Sizes of single dimensions -/

theorem lookup_zip {x : Dim} : ∀ {names : List Dim} {sizes : List Nat} {index : Nat},
    names.idxOf? x = some index → (names.zip sizes).lookup x = sizes[index]?
  | [], _, _, h => by simp at h
  | name :: names, [], index, h => by simp
  | name :: names, size :: sizes, index, h => by
    rw [List.idxOf?_cons] at h
    by_cases hx : name = x
    · subst hx
      simp only [beq_self_eq_true, if_true, Option.some.injEq] at h
      subst h
      simp
    · have hx' : (x == name) = false := by simpa using fun h => hx h.symm
      simp only [beq_eq_false_iff_ne.2 hx, Bool.false_eq_true, if_false, Option.map_eq_some_iff] at h
      obtain ⟨index, hindex, rfl⟩ := h
      simp only [List.zip_cons_cons, List.lookup_cons, hx', List.getElem?_cons_succ]
      exact lookup_zip hindex

/-- The tensor with another size of a dimension: everything else is as before. -/
theorem setDim_eq_ok {x : Dim} {size : Nat} (h : t.setDim x size = .ok t') :
    t'.dtype = t.dtype ∧ t'.rank = t.rank ∧ t'.dim? x = some size := by
  unfold setDim at h
  split at h
  · cases h
  next index hindex =>
    have hdims : t'.dims = t.dims.set index size := by
      cases h
      rfl
    have hrank : t'.rank = t.rank := by rw [rank, hdims, List.length_set, rank]
    have hlen : t.canonical.dims.length = t.dims.length := by
      rw [Order.dims, List.length_reverse]
      exact Order.rank_canonical t.canonical_eq
    obtain ⟨hlt, _⟩ := List.idxOf?_eq_some_iff.1 hindex
    refine ⟨by cases h; rfl, hrank, ?_⟩
    rw [dim?, canonical_congr hrank, hdims, lookup_zip hindex, List.getElem?_set_self (by omega)]

/-- A size can be set where there is one. -/
theorem setDim_of_dim? {x : Dim} {size old : Nat} (h : t.dim? x = some old) : ∃ t', t.setDim x size = .ok t' := by
  unfold setDim
  split
  next hnone =>
    rw [List.idxOf?_eq_none_iff] at hnone
    exact absurd (List.of_mem_zip (mem_of_lookup h)).1 hnone
  · exact ⟨_, rfl⟩

/-- Sizes are read off the list of sizes. -/
theorem dim?_congr (h : t'.dims = t.dims) (x : Dim) : t'.dim? x = t.dim? x := by
  rw [dim?, dim?, canonical_congr (show t'.rank = t.rank from congrArg List.length h), h]

theorem dims_setDim_congr {x : Dim} {size : Nat} {u u' : Desc} (h : t'.dims = t.dims)
    (hu : t.setDim x size = .ok u) (hu' : t'.setDim x size = .ok u') : u'.dims = u.dims := by
  unfold setDim at hu hu'
  rw [canonical_congr (show t'.rank = t.rank from congrArg List.length h)] at hu'
  split at hu
  · cases hu
  next index hindex =>
    simp only [hindex] at hu'
    cases hu
    cases hu'
    simp only [h]

/-! ## Numbers of elements and bytes -/

theorem total_runs (t : Desc) : Runs t.total :=
  FailsOnly.foldlM (fun _ _ => True) (fun _ _ _ _ _ _ => trivial) (fun _ _ _ _ => Runs.mul _ _) trivial

theorem total_congr (h : t'.dims = t.dims) : t'.total = t.total := by
  rw [total, total, h]

/-- One position after the other: a stride, and what it leaves for the next. -/
theorem stridesFrom_cons {req : StrideReq} {pos next size : Nat} {sizes strides : List Nat}
    (h : stridesFrom req pos next (size :: sizes) = .ok strides) :
    ∃ stride, (if 0 < pos ∧ req.get pos = .aligned then Size.alignUp next strideAlignment else .ok next) =
      .ok stride ∧ stride * size < Size.range ∧
      ∃ rest, stridesFrom req (pos + 1) (stride * size) sizes = .ok rest ∧ strides = stride :: rest := by
  have behind {stride : Nat} (h : (do
      let next ← Size.mul stride size
      let strides ← stridesFrom req (pos + 1) next sizes
      .ok (stride :: strides)) = Except.ok strides) : stride * size < Size.range ∧
        ∃ rest, stridesFrom req (pos + 1) (stride * size) sizes = .ok rest ∧ strides = stride :: rest := by
    simp only [Outcome.bind_eq_ok, Except.ok.injEq] at h
    obtain ⟨next', hnext', rest, hrest, h⟩ := h
    have hlt := Size.lt_of_mul hnext'
    rw [Size.mul_eq_ok hnext'] at hrest hlt
    exact ⟨hlt, rest, hrest, h.symm⟩
  rw [stridesFrom] at h
  split at h
  next haligned =>
    obtain ⟨stride, hstride, h⟩ := Outcome.bind_eq_ok.1 h
    exact ⟨stride, by rw [if_pos haligned]; exact hstride, behind h⟩
  next haligned => exact ⟨next, by rw [if_neg haligned], behind h⟩

/-- A stride leaves room for what is within it. -/
theorem le_stride {req : StrideReq} {pos next stride : Nat}
    (h : (if 0 < pos ∧ req.get pos = .aligned then Size.alignUp next strideAlignment else .ok next) = .ok stride) :
    next ≤ stride := by
  split at h
  · exact (Size.alignUp_eq_ok (by decide) h).2
  · cases h
    exact Nat.le_refl next

theorem stridesFrom_runs (req : StrideReq) : ∀ (sizes : List Nat) (pos next : Nat),
    Runs (stridesFrom req pos next sizes)
  | [], _, _ => .of_eq_ok rfl
  | size :: rest, pos, next => by
    have behind (stride : Nat) : Runs (do
        let next ← Size.mul stride size
        let strides ← stridesFrom req (pos + 1) next rest
        .ok (stride :: strides)) :=
      (Runs.mul _ _).bind fun next _ => (stridesFrom_runs req rest _ next).bind fun _ _ => .of_eq_ok rfl
    rw [stridesFrom]
    split
    · exact (Runs.mul _ _).bind fun stride _ => behind stride
    · exact behind next

theorem strides_runs (t : Desc) (req : StrideReq) : Runs (t.strides req) := stridesFrom_runs req _ _ _

theorem byteSize_runs (t : Desc) (strides : List Nat) : Runs (t.byteSize strides) := by
  unfold byteSize
  split
  · exact .mul _ _
  · exact .of_eq_ok rfl

end Desc

end NetLower
