/-
The room that a tensor takes up.  An element takes at most four bytes, and only the stride
of one dimension can be pushed up to a multiple of sixteen by alignment at a time; so no
stride and no size in bytes goes beyond sixteen times the number of elements, and computing
with them faults only if that is out of range.
-/
import NetLower.Proofs.Faults
import NetLower.Proofs.Tensor.Encode

namespace NetLower

open Outcome

variable {P : Fault → Prop}

/-- An aligned size stays below every multiple that the size is below. -/
theorem Size.ceilDiv_mul_le {size unit cap : Nat} (hunit : 0 < unit) (hcap : unit ∣ cap) (h : size ≤ cap) :
    ceilDiv size unit * unit ≤ cap := by
  obtain ⟨k, rfl⟩ := hcap
  have hle : ceilDiv size unit ≤ k := by
    refine Nat.lt_succ_iff.1 (Nat.div_lt_of_lt_mul ?_)
    rw [Nat.mul_succ]
    omega
  rw [Nat.mul_comm unit k]
  exact Nat.mul_le_mul_right _ hle

@[simp] theorem Bytes.faultsOnly_checkSize {size : Nat} :
    FaultsOnly P (checkSize size) ↔ (Size.range ≤ 2 * size → P .capacity) := by
  simp only [checkSize, failsOnly_ite, failsOnly_ok, failsOnly_error, Error.FaultIn, implies_true, true_and]
  have hiff : ¬ size ≤ Size.maxBuffer ↔ Size.range ≤ 2 * size := by
    simp only [Size.maxBuffer, Size.range, UInt64.size]
    omega
  rw [hiff]

theorem ElementType.size_le (t : ElementType) : t.size ≤ strideAlignment := by
  cases t <;> decide

namespace Desc

variable {t : Desc} {req : StrideReq} {strides : List Nat}

/-! ## Strides -/

/-- A stride stays below the multiple of the alignment that bounds what is within it. -/
theorem stride_le {pos next cap stride : Nat} (hnext : next ≤ cap) (hcap : strideAlignment ∣ cap)
    (h : (if 0 < pos ∧ req.get pos = .aligned then Size.alignUp next strideAlignment else .ok next) = .ok stride) :
    stride ≤ cap := by
  split at h
  · rw [Size.mul_eq_ok h]
    exact Size.ceilDiv_mul_le (by decide) hcap hnext
  · cases h
    exact hnext

theorem faultsOnly_stridesFrom : ∀ {sizes : List Nat} {pos next cap : Nat}, next ≤ cap → strideAlignment ∣ cap →
    (Size.range ≤ cap * Size.volume sizes → P .multiply) → FaultsOnly P (stridesFrom req pos next sizes)
  | [], _, _, _, _, _, _ => by simp [stridesFrom]
  | size :: sizes, pos, next, cap, hnext, hcap, h => by
    rw [Size.volume_cons, ← Nat.mul_assoc] at h
    have hwhole : cap * max 1 size ≤ cap * max 1 size * Size.volume sizes :=
      Nat.le_mul_of_pos_right _ (Size.volume_pos sizes)
    have behind {stride : Nat} (hstride : stride ≤ cap) : FaultsOnly P (do
        let next ← Size.mul stride size
        let strides ← stridesFrom req (pos + 1) next sizes
        .ok (stride :: strides)) := by
      have hle : stride * size ≤ cap * max 1 size := Nat.mul_le_mul hstride (Nat.le_max_right 1 size)
      simp only [failsOnly_bind, Size.faultsOnly_mul, failsOnly_ok, implies_true, and_true]
      refine ⟨fun hlarge => h (Nat.le_trans (Nat.le_trans hlarge hle) hwhole), fun next' hnext' => ?_⟩
      rw [Size.mul_eq_ok hnext']
      exact faultsOnly_stridesFrom hle (hcap.mul_right _) h
    rw [stridesFrom]
    split
    · have hle : Size.ceilDiv next strideAlignment * strideAlignment ≤ cap :=
        Size.ceilDiv_mul_le (by decide) hcap hnext
      have hstay : cap ≤ cap * max 1 size * Size.volume sizes :=
        Nat.le_trans (Nat.le_mul_of_pos_right _ (Nat.le_max_left 1 size)) hwhole
      refine FailsOnly.bind (Size.faultsOnly_alignUp.2 fun hlarge => h ?_) fun stride hstride => ?_
      · exact Nat.le_trans hlarge (Nat.le_trans hle hstay)
      · exact behind (Size.mul_eq_ok hstride ▸ hle)
    · exact behind hnext

/-- What holds of the bytes filled so far and the sizes still to come, from position to position,
holds of all the bytes in the end. -/
theorem stridesFrom_keeps (I : Nat → List Nat → Prop)
    (step : ∀ pos next size sizes stride, I next (size :: sizes) →
      (if 0 < pos ∧ req.get pos = .aligned then Size.alignUp next strideAlignment else .ok next) = .ok stride →
      stride * size < Size.range → I (stride * size) sizes) :
    ∀ {sizes strides : List Nat} {pos next size stride : Nat}, I next sizes →
      stridesFrom req pos next sizes = .ok strides → sizes.getLast? = some size → strides.getLast? = some stride →
      I (size * stride) []
  | [], _, _, _, _, _, _, _, hlast, _ => by simp at hlast
  | size' :: sizes, _, pos, next, size, stride, hI, h, hlast, hlast' => by
    obtain ⟨stride', hstride, hlt, rest, hrest, rfl⟩ := stridesFrom_cons h
    have hI' := step pos next size' sizes stride' hI hstride hlt
    cases sizes with
    | nil =>
      cases hrest
      simp only [List.getLast?_singleton, Option.some.injEq] at hlast hlast'
      subst hlast hlast'
      rwa [Nat.mul_comm]
    | cons size'' sizes =>
      obtain ⟨stride'', _, _, rest', _, rfl⟩ := stridesFrom_cons hrest
      rw [List.getLast?_cons_cons] at hlast hlast'
      exact stridesFrom_keeps I step hI' hrest hlast hlast'

/-! ## Bytes -/

/-- The number of elements; a size of zero counts as one. -/
def volume (t : Desc) : Nat := Size.volume t.dims

theorem memorySizes_perm (t : Desc) : t.memorySizes.Perm t.dims := by
  have hlookup : ∀ p ∈ t.canonical.dims.zip t.dims, t.dim? p.1 = some p.2 := fun p hp => dim?_of_mem_zip hp
  have hdims : t.canonical.dims.filterMap t.dim? = t.dims :=
    calc t.canonical.dims.filterMap t.dim?
        = ((t.canonical.dims.zip t.dims).map Prod.fst).filterMap t.dim? := by rw [map_fst_zip]
      _ = (t.canonical.dims.zip t.dims).filterMap fun p => t.dim? p.1 := List.filterMap_map
      _ = (t.canonical.dims.zip t.dims).map Prod.snd := by
        rw [List.filterMap_congr hlookup, List.filterMap_eq_map']
      _ = t.dims := map_snd_zip t
  have hperm := t.memory_perm.filterMap t.dim?
  rw [hdims] at hperm
  exact hperm.symm

theorem volume_memorySizes (t : Desc) : Size.volume t.memorySizes = t.volume := Size.volume_perm t.memorySizes_perm

theorem dim?_le_volume {x : Dim} {size : Nat} (h : t.dim? x = some size) : size ≤ t.volume :=
  Size.le_volume (List.of_mem_zip (mem_of_lookup h)).2

theorem faultsOnly_total (h : Size.range ≤ t.volume → P .multiply) : FaultsOnly P t.total :=
  Size.faultsOnly_product h

theorem faultsOnly_strides (h : Size.range ≤ 16 * t.volume → P .multiply) : FaultsOnly P (t.strides req) :=
  faultsOnly_stridesFrom t.dtype.size_le (Nat.dvd_refl _) (by rw [volume_memorySizes]; exact h)

/-- The product behind the size in bytes. -/
theorem last_le_prod {size stride : Nat} (hs : t.strides req = .ok strides)
    (hsize : t.memorySizes.getLast? = some size) (hstride : strides.getLast? = some stride) :
    size * stride ≤ 16 * t.dims.prod := by
  -- What is filled stays below a multiple of the alignment, which grows with the sizes.
  let I (next : Nat) (sizes : List Nat) : Prop :=
    ∃ cap, next ≤ cap ∧ strideAlignment ∣ cap ∧ cap * sizes.prod = 16 * t.dims.prod
  have hfilled : I (size * stride) [] := by
    refine stridesFrom_keeps I ?_ ⟨16, t.dtype.size_le, Nat.dvd_refl _, ?_⟩ hs hsize hstride
    · rintro pos next size sizes stride ⟨cap, hnext, hcap, htotal⟩ hstride _
      refine ⟨cap * size, Nat.mul_le_mul_right _ (stride_le hnext hcap hstride), hcap.mul_right _, ?_⟩
      rw [← htotal, List.prod_cons, Nat.mul_assoc]
    · rw [t.memorySizes_perm.prod_eq]
  obtain ⟨cap, hle, _, htotal⟩ := hfilled
  rw [List.prod_nil, Nat.mul_one] at htotal
  exact htotal ▸ hle

/-- Where strides can be computed, so can the size in bytes. -/
theorem byteSize_succeeds (hs : t.strides req = .ok strides) : Succeeds (t.byteSize strides) := by
  unfold byteSize
  split
  next hsize hstride =>
    refine .of_eq_ok
      (if_pos (stridesFrom_keeps (fun next _ => next < Size.range) (fun _ _ _ _ _ _ _ h => h) ?_ hs hsize hstride))
    exact Nat.lt_of_le_of_lt t.dtype.size_le (by decide)
  · exact .of_eq_ok rfl

theorem byteSize_le_prod {size : Nat} (hs : t.strides req = .ok strides) (h : t.byteSize strides = .ok size) :
    size ≤ 16 * t.dims.prod := by
  unfold byteSize at h
  split at h
  next hsize hstride =>
    rw [Size.mul_eq_ok h]
    exact last_le_prod hs hsize hstride
  · cases h
    exact Nat.zero_le _

theorem byteSize_le {size : Nat} (hs : t.strides req = .ok strides) (h : t.byteSize strides = .ok size) :
    size ≤ 16 * t.volume :=
  Nat.le_trans (byteSize_le_prod hs h) (Nat.mul_le_mul_left _ (Size.prod_le_volume _))

theorem byteSize_lt {size : Nat} (h : t.byteSize strides = .ok size) : size < Size.range := by
  unfold byteSize at h
  split at h
  · exact Size.lt_of_mul h
  · cases h
    decide

/-- Strides count all elements: if they can be computed, the elements can be counted. -/
theorem prod_lt_of_stridesFrom : ∀ {sizes strides : List Nat} {pos next : Nat}, stridesFrom req pos next sizes =
    .ok strides → next < Size.range → next * sizes.prod < Size.range
  | [], _, _, _, _, hnext => by simpa using hnext
  | size :: sizes, strides, pos, next, h, _ => by
    obtain ⟨stride, hstride, hlt, rest, hrest, rfl⟩ := stridesFrom_cons h
    rw [List.prod_cons, ← Nat.mul_assoc]
    calc next * size * sizes.prod ≤ stride * size * sizes.prod :=
          Nat.mul_le_mul_right _ (Nat.mul_le_mul_right _ (le_stride hstride))
      _ < Size.range := prod_lt_of_stridesFrom hrest hlt

theorem prod_lt_of_strides (hs : t.strides req = .ok strides) : t.dims.prod < Size.range := by
  have hsize : 1 ≤ t.dtype.size ∧ t.dtype.size < Size.range := by
    cases t.dtype <;> decide
  have hlt := prod_lt_of_stridesFrom hs hsize.2
  rw [t.memorySizes_perm.prod_eq] at hlt
  exact Nat.lt_of_le_of_lt (Nat.le_mul_of_pos_left _ hsize.1) hlt

/-! ## Elements -/

/-- Taking a position apart adds up the place of its index, so no sum on the way is beyond that. -/
theorem offsetFrom_succeeds {i : Dim → Nat} (stride : Dim → Nat) : ∀ {pairs : List (Dim × Nat)} {start : Nat},
    (∀ p ∈ pairs, i p.1 < p.2) → start + (pairs.map fun p => i p.1 * stride p.1).sum < Size.range →
    Succeeds (offsetFrom (pairs.map fun p => (p.2, stride p.1)) (pairs.foldr (fun p k => k * p.2 + i p.1) 0) start)
  | [], _, _, _ => .of_eq_ok rfl
  | (x, size) :: pairs, start, hi, hroom => by
    have hx : i x < size := hi (x, size) (by simp)
    simp only [List.map_cons, List.sum_cons] at hroom
    simp only [List.map_cons, List.foldr_cons, offsetFrom]
    rw [Nat.mul_comm, Nat.mul_add_mod, Nat.mod_eq_of_lt hx, Nat.mul_add_div (by omega), Nat.div_eq_of_lt hx,
      Nat.add_zero]
    refine .after (if_pos (show i x * stride x < Size.range by omega)) ?_
    refine .after (if_pos (show start + i x * stride x < Size.range by omega)) ?_
    exact offsetFrom_succeeds stride (fun p hp => hi p (by simp [hp])) (by omega)

/-- Where the size in bytes is in range, every element has its place. -/
theorem run_succeeds {size linear : Nat} (x : F32) (hs : t.strides req = .ok strides)
    (hsize : t.byteSize strides = .ok size) (hlinear : linear < t.dims.prod) :
    Succeeds (t.run strides size linear x) := by
  obtain ⟨i, hi, rfl⟩ := exists_linear hlinear
  have hlength := length_strides hs
  have hwithin := place_within hs hi hsize
  have hrange := byteSize_lt hsize
  refine FailsOnly.bind ?_ fun offset hoffset => ?_
  · rw [offset_linear_eq]
    refine offsetFrom_succeeds _ (fun p hp => hi.canonical p (List.mem_reverse.1 hp)) ?_
    rw [sum_strideOf hlength]
    omega
  · rw [offset_linear hlength hi hoffset]
    refine FailsOnly.bind (.after (if_pos ?_) (.require ?_)) fun _ _ => .pure _ <;> rw [ElementType.size_encode]
    · exact Nat.lt_of_le_of_lt hwithin hrange
    · exact hwithin

/-- Encoding a tensor with its strides faults only if its elements are too many. -/
theorem faultsOnly_encode {values : Array F32} (hs : t.strides req = .ok strides)
    (h : Size.range ≤ 32 * t.volume → P .multiply ∧ P .capacity) : FaultsOnly P (t.encode values strides) := by
  simp only [encode, failsOnly_bind, failsOnly_require, failsOnly_pure, Error.FaultIn, implies_true, and_true,
    true_and]
  intro _ _
  refine ⟨faultsOnly_total fun hlarge => (h (by omega)).1, fun total htotal _ henough => ?_⟩
  refine ⟨(byteSize_succeeds hs).failsOnly, fun size hsize => ?_⟩
  have hle := byteSize_le hs hsize
  refine ⟨Bytes.faultsOnly_checkSize.2 fun hlarge => (h (by omega)).2, fun size' hsize' => ?_⟩
  obtain rfl := Bytes.checkSize_eq_ok hsize'
  refine FailsOnly.mapM fun p hp => (run_succeeds p.1 hs hsize ?_).failsOnly
  have hlt := (List.mem_zipIdx' hp).1
  rw [List.length_take] at hlt
  have hprod : total = t.dims.prod := Size.product_eq_ok htotal
  omega

end Desc

end NetLower
