/-
The image of a tensor in memory.  With strides that were computed for it a tensor is always
written, unless no buffer is as large as that; every element has a place of its own, every
value within the shape is an element, and what lies between the elements is zero.
-/
import NetLower.Proofs.Tensor.Room
import NetLower.Proofs.Tensor.Rules

namespace NetLower.Desc

open Outcome (FailsOnly FaultsOnly Succeeds)

variable {t : Desc} {req : StrideReq} {strides : List Nat} {values : Array F32} {bytes : Bytes} {size : Nat}

/-! ## Writing a tensor -/

theorem total_eq_ok (hpos : 0 ∉ t.dims) (hlt : t.dims.prod < Size.range) : t.total = .ok t.dims.prod := by
  have hnone : FaultsOnly (fun _ => False) t.total := by
    refine faultsOnly_total fun hlarge => ?_
    rw [volume, Size.volume_eq_prod hpos] at hlarge
    omega
  cases h : t.total with
  | ok total => rw [Size.product_eq_ok h]
  | error e => rcases t.total_runs e h with rfl | rfl <;> exact (hnone _ h).elim

/-- Once the sizes are known to be in range, encoding is a matter of the buffer and the values that
count. -/
theorem encode_eq (hpos : 0 ∉ t.dims) (hs : t.strides req = .ok strides) (henough : t.dims.prod ≤ values.size)
    (hsize : t.byteSize strides = .ok size) : t.encode values strides = do
      let size ← Bytes.checkSize size
      let runs ← (values.toList.take t.dims.prod).zipIdx.mapM fun (x, linear) => t.run strides size linear x
      return Run.lay size runs := by
  simp only [encode, length_strides hs, total_eq_ok hpos (prod_lt_of_strides hs), hsize, Outcome.require, henough,
    if_true, bind, Except.bind]

theorem encode_eq_error (hpos : 0 ∉ t.dims) (hs : t.strides req = .ok strides)
    (henough : t.dims.prod ≤ values.size) (hsize : t.byteSize strides = .ok size)
    (hlarge : Size.maxBuffer < size) : t.encode values strides = .error (.fault .capacity) := by
  rw [encode_eq hpos hs henough hsize, Bytes.checkSize, if_neg (Nat.not_le.2 hlarge)]
  rfl

theorem encode_succeeds (hpos : 0 ∉ t.dims) (hs : t.strides req = .ok strides)
    (henough : t.dims.prod ≤ values.size) (hsize : t.byteSize strides = .ok size) (hroom : size ≤ Size.maxBuffer) :
    Succeeds (t.encode values strides) := by
  rw [encode_eq hpos hs henough hsize]
  refine .after (if_pos hroom) (FailsOnly.bind (.mapM fun p hp => run_succeeds p.1 hs hsize ?_) fun _ _ => .pure _)
  have hlt := (List.mem_zipIdx' hp).1
  rw [List.length_take] at hlt
  omega

/-- Values behind the shape do not count. -/
theorem encode_congr {values' : Array F32} (hpos : 0 ∉ t.dims) (hs : t.strides req = .ok strides)
    (henough : t.dims.prod ≤ values.size) (hsame : ∀ k < t.dims.prod, values'[k]? = values[k]?) :
    t.encode values' strides = t.encode values strides := by
  have htake : values'.toList.take t.dims.prod = values.toList.take t.dims.prod := by
    refine List.ext_getElem? fun k => ?_
    rw [List.getElem?_take, List.getElem?_take]
    split
    next hk => rw [Array.getElem?_toList, Array.getElem?_toList, hsame k hk]
    · rfl
  have henough' : t.dims.prod ≤ values'.size := by
    have hlength := congrArg List.length htake
    rw [List.length_take, List.length_take, Array.length_toList, Array.length_toList] at hlength
    omega
  obtain ⟨size, hsize⟩ := (byteSize_succeeds hs).eq_ok
  rw [encode_eq hpos hs henough hsize, encode_eq hpos hs henough' hsize, htake]

/-- Different indices have different places. -/
theorem place_apart_of_ne {i j : Dim → Nat} (hs : t.strides req = .ok strides) (hi : t.Inside i) (hj : t.Inside j)
    (hne : ∃ x ∈ t.order.memory, i x ≠ j x) : t.order.place strides i + t.dtype.size ≤ t.order.place strides j ∨
      t.order.place strides j + t.dtype.size ≤ t.order.place strides i := by
  obtain ⟨x, hx, hne⟩ := hne
  exact (stridesFrom_spaced hs).reach_apart hi.memory hj.memory fun heq => hne (List.map_inj_left.1 heq x hx)

/-- A tensor with computed strides and enough values is written, each element exactly once. Its size
in bytes is at most sixteen times the number of its elements, and only a size that no buffer can
have stops it. In the bytes, every index has a place of its own with the value at its row-major
position, every position is that of an index, all else is zero, and further values have no part in
it. -/
theorem encode_places_each_element (hpos : 0 ∉ t.dims) (hs : t.strides req = .ok strides)
    (henough : t.dims.prod ≤ values.size) :
    ∃ size, t.byteSize strides = .ok size ∧ size ≤ 16 * t.dims.prod ∧
      (Size.maxBuffer < size → t.encode values strides = .error (.fault .capacity)) ∧
      (size ≤ Size.maxBuffer → ∃ bytes, t.encode values strides = .ok bytes ∧ bytes.size = size ∧
        (∀ k < t.dims.prod, ∃ i, t.Inside i ∧ t.linear i = k) ∧
        (∀ i j, t.Inside i → t.Inside j → (∃ x ∈ t.order.memory, i x ≠ j x) →
          t.order.place strides i + t.dtype.size ≤ t.order.place strides j ∨
            t.order.place strides j + t.dtype.size ≤ t.order.place strides i) ∧
        (∀ i, t.Inside i → t.order.place strides i + t.dtype.size ≤ bytes.size ∧
          ∃ x, values[t.linear i]? = some x ∧
          bytes.extract (t.order.place strides i) (t.order.place strides i + t.dtype.size) = t.dtype.encode x) ∧
        (∀ k < bytes.size, (∀ i, t.Inside i →
            ¬ (t.order.place strides i ≤ k ∧ k < t.order.place strides i + t.dtype.size)) → bytes[k]? = some 0) ∧
        ∀ values' : Array F32, (∀ k < t.dims.prod, values'[k]? = values[k]?) →
        t.encode values' strides = .ok bytes) := by
  obtain ⟨size, hsize⟩ := (byteSize_succeeds hs).eq_ok
  refine ⟨size, hsize, byteSize_le_prod hs hsize, encode_eq_error hpos hs henough hsize, fun hroom => ?_⟩
  obtain ⟨bytes, hbytes⟩ := (encode_succeeds hpos hs henough hsize hroom).eq_ok
  have encoded := encode_encoded hs hbytes
  obtain rfl : size = bytes.size := Except.ok.inj (hsize.symm.trans encoded.size)
  refine ⟨bytes, hbytes, rfl, fun k hk => exists_linear hk, fun i j hi hj hne => place_apart_of_ne hs hi hj hne,
    fun i hi => ⟨place_within hs hi hsize, encoded.element i hi⟩, encoded.blank, fun values' hsame => ?_⟩
  rw [encode_congr hpos hs henough hsame, hbytes]

/-- Two channels of two rows and three columns, channels innermost. -/
def pixels : Desc := { dtype := .f16, dims := [1, 2, 2, 3], order := .nhwc, fits := ⟨.nchw, rfl, rfl⟩ }

/-- The numbers from one to thirteen, one more than there are pixels. -/
def thirteen : Array F32 := #[⟨0x3f800000⟩, ⟨0x40000000⟩, ⟨0x40400000⟩, ⟨0x40800000⟩, ⟨0x40a00000⟩, ⟨0x40c00000⟩,
  ⟨0x40e00000⟩, ⟨0x41000000⟩, ⟨0x41100000⟩, ⟨0x41200000⟩, ⟨0x41300000⟩, ⟨0x41400000⟩, ⟨0x41500000⟩]

/-- Every pixel starts at a multiple of sixteen bytes; the second one of the first row holds two and
eight. -/
theorem pixels_place_each_element :
    0 ∉ pixels.dims ∧ pixels.strides (StrideReq.compact.set 1 .aligned) = .ok [2, 16, 48, 96] ∧
      pixels.dims.prod ≤ thirteen.size ∧
      ∃ bytes, pixels.encode thirteen [2, 16, 48, 96] = .ok bytes ∧ bytes.size = 96 ∧
        bytes.extract 16 20 = #[0, 0x40, 0, 0x48] ∧
        (∀ k < 96, (∀ i, pixels.Inside i → ¬ (pixels.order.place [2, 16, 48, 96] i ≤ k ∧
          k < pixels.order.place [2, 16, 48, 96] i + 2)) → bytes[k]? = some 0) ∧
        pixels.encode (thirteen.extract 0 12) [2, 16, 48, 96] = .ok bytes := by
  have hs : pixels.strides (StrideReq.compact.set 1 .aligned) = .ok [2, 16, 48, 96] := rfl
  have hpair : (do return (← pixels.encode thirteen [2, 16, 48, 96]).extract 16 20) =
      Except.ok #[0, 0x40, 0, 0x48] := by
    decide +kernel
  obtain ⟨size, hsize, -, -, hwritten⟩ :=
    @encode_places_each_element pixels _ _ thirteen (by decide) hs (by decide)
  obtain rfl : 96 = size := Except.ok.inj hsize
  obtain ⟨bytes, hbytes, hlength, -, -, -, hblank, hrest⟩ := hwritten (by decide)
  rw [hbytes] at hpair
  refine ⟨by decide, hs, by decide, bytes, hbytes, hlength, Except.ok.inj hpair, hlength ▸ hblank,
    hrest _ fun k hk => ?_⟩
  rw [Array.getElem?_extract, if_pos (show k < min 12 thirteen.size - 0 from hk), Nat.zero_add]

/-! ## Dense images -/

theorem not_aligned_compact (pos : Nat) : ¬ (0 < pos ∧ StrideReq.compact.get pos = .aligned) := by
  by_cases hpos : pos < maxRank
  · simp [StrideReq.get_compact hpos]
  · simp [StrideReq.get_of_le (Nat.le_of_not_lt hpos)]

theorem stridesFrom_compact : ∀ {sizes : List Nat} {pos next : Nat}, 0 ∉ sizes → next * sizes.prod < Size.range →
    Succeeds (stridesFrom .compact pos next sizes)
  | [], _, _, _, _ => .of_eq_ok rfl
  | size :: sizes, pos, next, hpos, hlt => by
    rw [List.mem_cons, not_or] at hpos
    rw [List.prod_cons, ← Nat.mul_assoc] at hlt
    have hrest : 0 < sizes.prod := Size.volume_eq_prod hpos.2 ▸ Size.volume_pos sizes
    have hmul : Size.mul next size = .ok (next * size) :=
      if_pos (Nat.lt_of_le_of_lt (Nat.le_mul_of_pos_right _ hrest) hlt)
    rw [stridesFrom, if_neg (not_aligned_compact pos)]
    exact .after rfl (.after hmul ((stridesFrom_compact hpos.2 hlt).bind fun _ _ => .pure _))

/-- Without gaps a tensor takes up the bytes of its elements. -/
theorem byteSize_compact (hs : t.strides .compact = .ok strides) :
    t.byteSize strides = .ok (t.dtype.size * t.dims.prod) := by
  obtain ⟨last, stride, hlast, hstride⟩ := exists_getLast? hs
  have hkeeps := stridesFrom_keeps (fun next sizes => next * sizes.prod = t.dtype.size * t.dims.prod)
    (fun pos next size sizes stride hI h _ => ?_) (by rw [t.memorySizes_perm.prod_eq]) hs hlast hstride
  · obtain ⟨size, hsize⟩ := (byteSize_succeeds hs).eq_ok
    rw [hsize]
    rw [byteSize, hlast, hstride] at hsize
    rw [Size.mul_eq_ok hsize, ← hkeeps, List.prod_nil, Nat.mul_one]
  · rw [if_neg (not_aligned_compact pos), Except.ok.injEq] at h
    rw [← hI, h, List.prod_cons, Nat.mul_assoc]

/-- A tensor that fits a buffer has a dense image. -/
theorem exists_dense_image (hpos : 0 ∉ t.dims) (hroom : t.dtype.size * t.dims.prod ≤ Size.maxBuffer)
    (henough : t.dims.prod ≤ values.size) :
    ∃ strides bytes, t.strides .compact = .ok strides ∧ t.encode values strides = .ok bytes := by
  have hrange : t.dtype.size * t.memorySizes.prod < Size.range := by
    rw [t.memorySizes_perm.prod_eq]
    exact Nat.lt_of_le_of_lt hroom (by decide)
  obtain ⟨strides, hs⟩ := (@stridesFrom_compact _ 0 _ (t.memorySizes_perm.mem_iff.not.2 hpos) hrange).eq_ok
  obtain ⟨bytes, hbytes⟩ := (encode_succeeds hpos hs henough (byteSize_compact hs) hroom).eq_ok
  exact ⟨strides, bytes, hs, hbytes⟩

end NetLower.Desc
