/-
Where the elements of a tensor lie.  A logical index gives a number for every dimension.
Its row-major position counts elements in canonical order; its place counts bytes, by the
strides of the memory order.  Each stride leaves room for all that lies within it, so
different indices have places that are an element apart, and the last of them ends within
the bytes that the tensor takes up.
-/
import Mathlib.Algebra.GroupWithZero.Nat
import Mathlib.Data.List.Zip
import NetLower.Proofs.Tensor
import NetLower.Tensor.Encode

namespace NetLower

/-! ## Strides that leave room -/

/-- Strides leave room: each is at least as long as what is within it, which is `next` bytes for the
first. -/
inductive Spaced : Nat → List Nat → List Nat → Prop
  | nil {next : Nat} : Spaced next [] []
  | cons {next size stride : Nat} {sizes strides : List Nat} (fits : next ≤ stride)
      (rest : Spaced (stride * size) sizes strides) : Spaced next (size :: sizes) (stride :: strides)

/-- How far an index reaches into memory; numbers and strides are listed in the same order. -/
def reach (index strides : List Nat) : Nat := (List.zipWith (· * ·) index strides).sum

@[simp] theorem reach_nil (strides : List Nat) : reach [] strides = 0 := by simp [reach]

@[simp] theorem reach_cons (k stride : Nat) (index strides : List Nat) :
    reach (k :: index) (stride :: strides) = k * stride + reach index strides := by simp [reach]

namespace Spaced

variable {next : Nat} {sizes strides index : List Nat}

theorem length_eq (h : Spaced next sizes strides) : strides.length = sizes.length := by
  induction h with
  | nil => rfl
  | cons _ _ ih => simp [ih]

/-- One step along a dimension is at least as long as what is within it. -/
theorem step_le {k size stride : Nat} (fits : next ≤ stride) (hk : k < size) : k * stride + next ≤ stride * size :=
  calc k * stride + next ≤ k * stride + stride := Nat.add_le_add_left fits _
    _ = stride * (k + 1) := by rw [Nat.mul_succ, Nat.mul_comm]
    _ ≤ stride * size := Nat.mul_le_mul_left _ hk

/-- An element ends within the outermost dimension. -/
theorem reach_le (h : Spaced next sizes strides) (hindex : List.Forall₂ (· < ·) index sizes) {size stride : Nat}
    (hsize : sizes.getLast? = some size) (hstride : strides.getLast? = some stride) :
    reach index strides + next ≤ size * stride := by
  induction h generalizing index with
  | nil => simp at hsize
  | @cons next size' stride' sizes strides fits rest ih =>
    obtain _ | ⟨hk, hindex⟩ := hindex
    rename_i k index
    have hstep := step_le fits hk
    rw [reach_cons]
    cases rest with
    | nil =>
      cases hindex
      simp only [List.getLast?_singleton, Option.some.injEq] at hsize hstride
      subst hsize hstride
      rw [reach_nil, Nat.mul_comm size' stride']
      omega
    | cons fits' rest' =>
      rw [List.getLast?_cons_cons] at hsize hstride
      have := ih hindex hsize hstride
      omega

/-- Different indices are apart by what the first stride has room for. -/
theorem reach_apart (h : Spaced next sizes strides) {index' : List Nat} (hindex : List.Forall₂ (· < ·) index sizes)
    (hindex' : List.Forall₂ (· < ·) index' sizes) (hne : index ≠ index') :
    reach index strides + next ≤ reach index' strides ∨ reach index' strides + next ≤ reach index strides := by
  induction h generalizing index index' with
  | nil =>
    cases hindex
    cases hindex'
    exact absurd rfl hne
  | @cons next size stride sizes strides fits rest ih =>
    obtain _ | ⟨hk, hindex⟩ := hindex
    obtain _ | ⟨hk', hindex'⟩ := hindex'
    rename_i k index k' index'
    rw [reach_cons, reach_cons]
    by_cases heq : index = index'
    · -- Only the first numbers differ.
      subst heq
      have hkk : k ≠ k' := fun hkk => hne (hkk ▸ rfl)
      rcases Nat.lt_or_gt_of_ne hkk with hlt | hlt
      · have := step_le fits hlt
        rw [Nat.mul_comm stride] at this
        omega
      · have := step_le fits hlt
        rw [Nat.mul_comm stride] at this
        omega
    · -- The rest is apart by the whole of the first dimension.
      have hstep := step_le fits hk
      have hstep' := step_le fits hk'
      have := ih hindex hindex' heq
      omega

end Spaced

namespace Desc

/-- Computed strides leave room. -/
theorem stridesFrom_spaced {req : StrideReq} : ∀ {sizes strides : List Nat} {pos next : Nat},
    stridesFrom req pos next sizes = .ok strides → Spaced next sizes strides
  | [], strides, pos, next, h => by
    cases h
    exact .nil
  | size :: sizes, strides, pos, next, h => by
    obtain ⟨stride, hstride, _, rest, hrest, rfl⟩ := stridesFrom_cons h
    exact .cons (le_stride hstride) (stridesFrom_spaced hrest)

end Desc

/-! ## Logical indices -/

/-- Where an index leads in memory that runs in an order, with strides innermost first. -/
def Order.place (o : Order) (strides : List Nat) (i : Dim → Nat) : Nat := reach (o.memory.map i) strides

namespace Desc

variable {t : Desc} {i : Dim → Nat} {strides : List Nat}

/-- The index lies within the sizes of the tensor. -/
def Inside (t : Desc) (i : Dim → Nat) : Prop := ∀ x size, t.dim? x = some size → i x < size

/-- The row-major position of an index: canonical order, last dimension fastest. -/
def linear (t : Desc) (i : Dim → Nat) : Nat :=
  (t.canonical.dims.zip t.dims).foldl (fun k (x, size) => k * size + i x) 0

theorem length_canonical_dims (t : Desc) : t.canonical.dims.length = t.dims.length := by
  rw [Order.dims, List.length_reverse]
  exact Order.rank_canonical t.canonical_eq

theorem nodup_canonical_dims (t : Desc) : t.canonical.dims.Nodup :=
  (List.reverse_perm _).nodup_iff.2 t.canonical.nodup

theorem map_fst_zip (t : Desc) : (t.canonical.dims.zip t.dims).map Prod.fst = t.canonical.dims :=
  List.map_fst_zip (Nat.le_of_eq t.length_canonical_dims)

theorem map_snd_zip (t : Desc) : (t.canonical.dims.zip t.dims).map Prod.snd = t.dims :=
  List.map_snd_zip (Nat.le_of_eq t.length_canonical_dims.symm)

/-- Memory runs through the canonical dimensions. -/
theorem memory_perm (t : Desc) : t.canonical.dims.Perm t.order.memory :=
  (List.reverse_perm _).trans (List.isPerm_iff.1 t.allows_order)

theorem dim?_of_mem_zip {x : Dim} {size : Nat} (h : (x, size) ∈ t.canonical.dims.zip t.dims) :
    t.dim? x = some size :=
  lookup_of_mem (by rw [map_fst_zip]; exact t.nodup_canonical_dims) h

theorem exists_dim? {x : Dim} (h : x ∈ t.order.memory) : ∃ size, t.dim? x = some size := by
  obtain ⟨k, hk, hx⟩ := List.mem_iff_getElem.1 (t.memory_perm.mem_iff.2 h)
  have hk' : k < t.dims.length := t.length_canonical_dims ▸ hk
  refine ⟨t.dims[k], dim?_of_mem_zip (List.mem_iff_getElem.2 ⟨k, by simp; omega, ?_⟩)⟩
  rw [List.getElem_zip, hx]

/-- The sizes in memory order are those of the dimensions that memory runs through. -/
theorem memorySizes_eq (t : Desc) :
    List.Forall₂ (fun x size => t.dim? x = some size) t.order.memory t.memorySizes := by
  have sizes : ∀ {dims : List Dim}, (∀ x ∈ dims, ∃ size, t.dim? x = some size) →
      List.Forall₂ (fun x size => t.dim? x = some size) dims (dims.filterMap t.dim?) := by
    intro dims
    induction dims with
    | nil => exact fun _ => .nil
    | cons x dims ih =>
      intro h
      obtain ⟨size, hsize⟩ := h x (by simp)
      rw [List.filterMap_cons_some hsize]
      exact .cons hsize (ih fun y hy => h y (by simp [hy]))
  exact sizes fun x hx => exists_dim? hx

theorem Inside.memory (h : t.Inside i) : List.Forall₂ (· < ·) (t.order.memory.map i) t.memorySizes := by
  rw [List.forall₂_map_left_iff]
  exact t.memorySizes_eq.imp fun x size hsize => h x size hsize

theorem memorySizes_eq_map (t : Desc) : t.memorySizes = t.order.memory.map fun x => (t.dim? x).getD 0 := by
  have hsizes : List.Forall₂ (· = ·) (t.order.memory.map fun x => (t.dim? x).getD 0) t.memorySizes := by
    rw [List.forall₂_map_left_iff]
    exact t.memorySizes_eq.imp fun x size hsize => by rw [hsize, Option.getD_some]
  rw [List.forall₂_eq_eq_eq] at hsizes
  exact hsizes.symm

/-- An index that keeps within the sizes in memory order lies within the tensor. -/
theorem Inside.of_memory (h : List.Forall₂ (· < ·) (t.order.memory.map i) t.memorySizes) : t.Inside i := by
  rw [memorySizes_eq_map, List.forall₂_map_left_iff, List.forall₂_map_right_iff, List.forall₂_same] at h
  intro x size hx
  have hlt := h x (t.memory_perm.mem_iff.1 (List.of_mem_zip (mem_of_lookup hx)).1)
  rwa [hx] at hlt

theorem Inside.canonical (h : t.Inside i) : ∀ p ∈ t.canonical.dims.zip t.dims, i p.1 < p.2 :=
  fun p hp => h p.1 p.2 (dim?_of_mem_zip hp)

/-- The position of an index, seen from the last dimension. -/
theorem linear_eq_foldr (t : Desc) (i : Dim → Nat) :
    t.linear i = (t.canonical.dims.zip t.dims).reverse.foldr (fun p k => k * p.2 + i p.1) 0 := by
  rw [linear, List.foldl_eq_foldr_reverse]

/-! ### Places of positions -/

/-- Taking a position apart leads to the place of its index. -/
theorem offsetFrom_eq_ok (stride : Dim → Nat) : ∀ {pairs : List (Dim × Nat)} {start offset : Nat},
    (∀ p ∈ pairs, i p.1 < p.2) →
    offsetFrom (pairs.map fun p => (p.2, stride p.1))
    (pairs.foldr (fun p k => k * p.2 + i p.1) 0) start = .ok offset →
    offset = start + (pairs.map fun p => i p.1 * stride p.1).sum
  | [], start, offset, _, h => by
    cases h
    simp
  | (x, size) :: pairs, start, offset, hi, h => by
    have hx : i x < size := hi (x, size) (by simp)
    simp only [List.map_cons, List.foldr_cons, offsetFrom, Outcome.bind_eq_ok] at h
    obtain ⟨step, hstep, next, hnext, h⟩ := h
    rw [Nat.mul_comm, Nat.mul_add_mod, Nat.mod_eq_of_lt hx] at hstep
    rw [Nat.mul_comm, Nat.mul_add_div (by omega), Nat.div_eq_of_lt hx, Nat.add_zero] at h
    rw [offsetFrom_eq_ok stride (fun p hp => hi p (by simp [hp])) h, Size.add_eq_ok hnext, Size.mul_eq_ok hstep]
    simp only [List.map_cons, List.sum_cons]
    omega

/-- The stride of a dimension, by its place in memory. -/
def strideOf (t : Desc) (strides : List Nat) (x : Dim) : Nat := strides.getD (t.order.memory.idxOf x) 0

theorem map_strideOf (h : strides.length = t.order.memory.length) :
    t.order.memory.map (t.strideOf strides) = strides := by
  refine List.ext_getElem (by simp [h]) fun k hk hk' => ?_
  have hk : k < t.order.memory.length := by omega
  rw [List.getElem_map, strideOf, List.Nodup.idxOf_getElem t.order.nodup, List.getD_eq_getElem?_getD,
    List.getElem?_eq_getElem hk']
  rfl

/-- A place is a sum over the dimensions, in whatever order. -/
theorem place_eq_sum (h : strides.length = t.order.memory.length) :
    t.order.place strides i = (t.canonical.dims.map fun x => i x * t.strideOf strides x).sum := by
  rw [(t.memory_perm.map _).sum_eq, Order.place, reach]
  nth_rewrite 1 [← map_strideOf h]
  rw [List.zipWith_map, List.zipWith_self]

theorem length_memory (t : Desc) : t.order.memory.length = t.rank := by
  rw [← t.memory_perm.length_eq, length_canonical_dims, rank]

/-- The offset of an element, dimension by dimension from the last. -/
theorem offset_linear_eq (t : Desc) (strides : List Nat) (i : Dim → Nat) :
    t.offset strides (t.linear i) =
      offsetFrom ((t.canonical.dims.zip t.dims).reverse.map fun p => (p.2, t.strideOf strides p.1))
        ((t.canonical.dims.zip t.dims).reverse.foldr (fun p k => k * p.2 + i p.1) 0) 0 := by
  have hpairs : (t.dims.zip (t.canonicalStrides strides)).reverse =
      (t.canonical.dims.zip t.dims).reverse.map fun p => (p.2, t.strideOf strides p.1) := by
    rw [List.map_reverse, canonicalStrides, List.zip_map_right, ← List.zip_swap, List.map_map]
    rfl
  rw [Desc.offset, hpairs, linear_eq_foldr]

theorem sum_strideOf (hlength : strides.length = t.rank) :
    ((t.canonical.dims.zip t.dims).reverse.map fun p => i p.1 * t.strideOf strides p.1).sum =
      t.order.place strides i := by
  rw [place_eq_sum (hlength.trans t.length_memory.symm), ((List.reverse_perm _).map _).sum_eq]
  nth_rewrite 2 [← t.map_fst_zip]
  rw [List.map_map]
  rfl

/-- The offset of an element is the place of its index. -/
theorem offset_linear {offset : Nat} (hlength : strides.length = t.rank) (hi : t.Inside i)
    (h : t.offset strides (t.linear i) = .ok offset) : offset = t.order.place strides i := by
  rw [offset_linear_eq] at h
  rw [offsetFrom_eq_ok (t.strideOf strides) (fun p hp => hi.canonical p (List.mem_reverse.1 hp)) h, Nat.zero_add,
    sum_strideOf hlength]

/-- Every position is the position of an index. -/
theorem exists_linear {k : Nat} (h : k < t.dims.prod) : ∃ i, t.Inside i ∧ t.linear i = k := by
  have digits : ∀ {pairs : List (Dim × Nat)} {k : Nat}, (pairs.map Prod.fst).Nodup →
      k < (pairs.map Prod.snd).prod →
      ∃ i : Dim → Nat, (∀ p ∈ pairs, i p.1 < p.2) ∧ pairs.foldr (fun p k => k * p.2 + i p.1) 0 = k := by
    intro pairs
    induction pairs with
    | nil =>
      intro k _ hk
      exact ⟨fun _ => 0, by simp, by simp at hk; simp [hk]⟩
    | cons p pairs ih =>
      obtain ⟨x, size⟩ := p
      intro k hnodup hk
      simp only [List.map_cons, List.nodup_cons, List.prod_cons] at hnodup hk
      have hsize : 0 < size := Nat.pos_of_ne_zero fun h => by simp [h] at hk
      obtain ⟨i, hi, hrest⟩ := ih hnodup.2 (Nat.div_lt_of_lt_mul hk)
      -- The other dimensions keep their numbers.
      have hother : ∀ p ∈ pairs, Function.update i x (k % size) p.1 = i p.1 := by
        intro p hp
        exact Function.update_of_ne (fun h => hnodup.1 (List.mem_map.2 ⟨p, hp, h⟩)) _ _
      refine ⟨Function.update i x (k % size), ?_, ?_⟩
      · intro p hp
        rcases List.mem_cons.1 hp with rfl | hp
        · rw [Function.update_self]
          exact Nat.mod_lt k hsize
        · rw [hother p hp]
          exact hi p hp
      · rw [List.foldr_cons, List.foldr_ext _ _ _ fun p hp k => by rw [hother p hp], hrest, Function.update_self,
          Nat.mul_comm]
        exact Nat.div_add_mod k size
  have hperm := List.reverse_perm (t.canonical.dims.zip t.dims)
  obtain ⟨i, hi, hk⟩ := @digits (t.canonical.dims.zip t.dims).reverse k
    (by rw [(hperm.map _).nodup_iff, map_fst_zip]; exact t.nodup_canonical_dims)
    (by rw [(hperm.map _).prod_eq, map_snd_zip]; exact h)
  exact ⟨i, fun x size hx => hi (x, size) (List.mem_reverse.2 (mem_of_lookup hx)), (linear_eq_foldr t i).trans hk⟩

theorem linear_lt (hi : t.Inside i) : t.linear i < t.dims.prod := by
  have below : ∀ {pairs : List (Dim × Nat)}, (∀ p ∈ pairs, i p.1 < p.2) →
      pairs.foldr (fun p k => k * p.2 + i p.1) 0 < (pairs.map Prod.snd).prod := by
    intro pairs
    induction pairs with
    | nil => intro _; simp
    | cons p pairs ih =>
      intro hp
      have hrest := ih fun q hq => hp q (by simp [hq])
      have hx := hp p (by simp)
      simp only [List.foldr_cons, List.map_cons, List.prod_cons]
      calc _ < (pairs.foldr (fun p k => k * p.2 + i p.1) 0 + 1) * p.2 := by rw [Nat.succ_mul]; omega
        _ ≤ (pairs.map Prod.snd).prod * p.2 := Nat.mul_le_mul_right _ hrest
        _ = p.2 * (pairs.map Prod.snd).prod := Nat.mul_comm _ _
  have := @below (t.canonical.dims.zip t.dims).reverse fun p hp => hi.canonical p (List.mem_reverse.1 hp)
  rwa [((List.reverse_perm _).map _).prod_eq, map_snd_zip, ← linear_eq_foldr] at this

/-- A position depends on the numbers of the tensor's own dimensions only. -/
theorem linear_congr {j : Dim → Nat} (h : t.order.memory.map i = t.order.memory.map j) :
    t.linear i = t.linear j := by
  have hsame : ∀ x ∈ t.canonical.dims, i x = j x := by
    intro x hx
    exact List.map_inj_left.1 h x (t.memory_perm.mem_iff.1 hx)
  refine List.foldl_ext _ _ _ fun k p hp => ?_
  show k * p.2 + i p.1 = k * p.2 + j p.1
  rw [hsame p.1 (List.of_mem_zip hp).1]

/-- A position is a matter of the sizes, whatever the order of memory. -/
theorem linear_of_dims {t' : Desc} (h : t'.dims = t.dims) : t'.linear i = t.linear i := by
  rw [linear, linear, canonical_congr (show t'.rank = t.rank from congrArg List.length h), h]

theorem Inside.of_dims {t' : Desc} (hi : t.Inside i) (h : t'.dims = t.dims) : t'.Inside i :=
  fun x size hx => hi x size (dim?_congr h x ▸ hx)

/-! ### Elements in memory -/

variable {req : StrideReq}

theorem length_strides (h : t.strides req = .ok strides) : strides.length = t.rank := by
  rw [(stridesFrom_spaced h).length_eq, ← t.memorySizes_eq.length_eq, length_memory]

/-- There is an outermost dimension, and it has a stride. -/
theorem exists_getLast? (h : t.strides req = .ok strides) :
    ∃ size stride, t.memorySizes.getLast? = some size ∧ strides.getLast? = some stride := by
  have hlength := (stridesFrom_spaced h).length_eq
  have hne : t.memorySizes ≠ [] := by
    intro hnil
    have := t.memorySizes_eq
    rw [hnil, List.forall₂_nil_right_iff] at this
    exact t.order.nonempty this
  have hne' : strides ≠ [] := by
    intro hnil
    rw [hnil] at hlength
    exact hne (List.length_eq_zero_iff.1 hlength.symm)
  exact ⟨_, _, List.getLast?_eq_some_getLast hne, List.getLast?_eq_some_getLast hne'⟩

/-- An element ends within the bytes that the tensor takes up. -/
theorem place_within {size : Nat} (h : t.strides req = .ok strides) (hi : t.Inside i)
    (hsize : t.byteSize strides = .ok size) : t.order.place strides i + t.dtype.size ≤ size := by
  obtain ⟨last, stride, hlast, hstride⟩ := exists_getLast? h
  rw [byteSize, hlast, hstride] at hsize
  rw [Size.mul_eq_ok hsize]
  exact (stridesFrom_spaced h).reach_le hi.memory hlast hstride

/-- Elements at different positions do not meet. -/
theorem place_apart {j : Dim → Nat} (h : t.strides req = .ok strides) (hi : t.Inside i) (hj : t.Inside j)
    (hne : t.linear i ≠ t.linear j) : t.order.place strides i + t.dtype.size ≤ t.order.place strides j ∨
      t.order.place strides j + t.dtype.size ≤ t.order.place strides i :=
  (stridesFrom_spaced h).reach_apart hi.memory hj.memory fun heq => hne (linear_congr heq)

end Desc

end NetLower
