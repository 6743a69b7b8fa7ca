/-
The bytes of a constant tensor.  Runs that do not meet are found in a buffer as they were
laid, and all bytes between them are zero; the elements of a tensor are such runs, each at
the place of its index.
-/
import NetLower.Proofs.Tensor.Places

namespace NetLower

/-! ## Runs in a buffer -/

namespace Run

variable {buffer : Bytes} {r : Run} {runs : List Run} {size k : Nat}

theorem size_put (buffer : Bytes) (r : Run) : (put buffer r).size = buffer.size := by
  have kept : ∀ (bytes : List UInt8) (state : Bytes × Nat),
      (bytes.foldl (fun s byte => (s.1.setIfInBounds s.2 byte, s.2 + 1)) state).1.size = state.1.size := by
    intro bytes
    induction bytes with
    | nil => exact fun _ => rfl
    | cons byte bytes ih => exact fun state => (ih _).trans (Array.size_setIfInBounds ..)
  rw [put, ← Array.foldl_toList]
  exact kept _ _

theorem size_lay (size : Nat) (runs : List Run) : (lay size runs).size = size := by
  have kept : ∀ (runs : List Run) (buffer : Bytes), (runs.foldl put buffer).size = buffer.size := by
    intro runs
    induction runs with
    | nil => exact fun _ => rfl
    | cons r runs ih => exact fun buffer => (ih _).trans (size_put buffer r)
  rw [lay, kept, Array.size_replicate]

/-- The run has a byte at this position. -/
def Covers (r : Run) (k : Nat) : Prop := r.offset ≤ k ∧ k < r.offset + r.bytes.size

/-- The runs have no position in common. -/
def Apart (r r' : Run) : Prop := r.offset + r.bytes.size ≤ r'.offset ∨ r'.offset + r'.bytes.size ≤ r.offset

theorem Apart.not_covers {r' : Run} (h : r.Apart r') (hk : r.Covers k) : ¬ r'.Covers k := by
  unfold Apart at h
  unfold Covers at *
  omega

theorem getElem?_put (buffer : Bytes) (r : Run) (k : Nat) :
    (put buffer r)[k]? = if r.offset ≤ k ∧ k < r.offset + r.bytes.size ∧
      k < buffer.size then r.bytes[k - r.offset]? else buffer[k]? := by
  have from_offset : ∀ (bytes : List UInt8) (buffer : Bytes) (offset : Nat),
      (bytes.foldl (fun s byte => (s.1.setIfInBounds s.2 byte, s.2 + 1)) (buffer, offset)).1[k]? =
        if offset ≤ k ∧ k < offset + bytes.length ∧ k < buffer.size then bytes[k - offset]? else buffer[k]? := by
    intro bytes
    induction bytes with
    | nil =>
      intro buffer offset
      rw [if_neg (by simp; omega)]
      rfl
    | cons byte bytes ih =>
      intro buffer offset
      rw [List.foldl_cons, ih, Array.size_setIfInBounds, Array.getElem?_setIfInBounds, List.length_cons]
      by_cases hfirst : offset = k
      · subst hfirst
        by_cases hin : offset < buffer.size
        · rw [if_neg (by omega), if_pos rfl, if_pos hin, if_pos (by omega), Nat.sub_self, List.getElem?_cons_zero]
        · rw [if_neg (by omega), if_pos rfl, if_neg hin, if_neg (by omega), Array.getElem?_eq_none (by omega)]
      · rw [if_neg hfirst]
        by_cases hrest : offset + 1 ≤ k ∧ k < offset + 1 + bytes.length ∧ k < buffer.size
        · rw [if_pos hrest, if_pos (by omega), show k - offset = k - (offset + 1) + 1 by omega,
            List.getElem?_cons_succ]
        · rw [if_neg hrest, if_neg (by omega)]
  have laid := from_offset r.bytes.toList buffer r.offset
  rw [Array.length_toList, Array.getElem?_toList] at laid
  rw [put, ← Array.foldl_toList]
  exact laid

/-- Runs elsewhere leave a byte alone. -/
theorem getElem?_foldl_put (h : ∀ r ∈ runs, ¬ r.Covers k) (buffer : Bytes) :
    (runs.foldl put buffer)[k]? = buffer[k]? := by
  induction runs generalizing buffer with
  | nil => rfl
  | cons r runs ih =>
    have hr := h r (by simp)
    unfold Covers at hr
    rw [List.foldl_cons, ih (fun r hr => h r (by simp [hr])), getElem?_put, if_neg (by omega)]

theorem getElem?_lay_of_not_covers (hk : k < size) (h : ∀ r ∈ runs, ¬ r.Covers k) :
    (lay size runs)[k]? = some 0 := by
  rw [lay, getElem?_foldl_put h, Array.getElem?_replicate, if_pos hk]

theorem getElem?_lay_of_covers (hapart : runs.Pairwise Apart) (hr : r ∈ runs) (hk : k < size) (h : r.Covers k) :
    (lay size runs)[k]? = r.bytes[k - r.offset]? := by
  have laid : ∀ {runs : List Run} {buffer : Bytes}, runs.Pairwise Apart → r ∈ runs → k < buffer.size →
      (runs.foldl put buffer)[k]? = r.bytes[k - r.offset]? := by
    intro runs
    induction runs with
    | nil => intro buffer _ hr; cases hr
    | cons r' runs ih =>
      intro buffer hapart hr hk
      obtain ⟨hfirst, hrest⟩ := List.pairwise_cons.1 hapart
      rw [List.foldl_cons]
      rcases List.mem_cons.1 hr with rfl | hr
      · -- No later run meets this one.
        have hcovers := h
        unfold Covers at hcovers
        rw [getElem?_foldl_put (fun r' hr' => (hfirst r' hr').not_covers h), getElem?_put, if_pos (by omega)]
      · exact ih hrest hr (by rw [size_put]; exact hk)
  exact laid hapart hr (by simpa using hk)

/-- A run is found as it was laid. -/
theorem extract_lay (hapart : runs.Pairwise Apart) (hr : r ∈ runs) (hin : r.offset + r.bytes.size ≤ size) :
    (lay size runs).extract r.offset (r.offset + r.bytes.size) = r.bytes := by
  refine Array.ext_getElem? fun k => ?_
  rw [Array.getElem?_extract, size_lay]
  by_cases hk : k < r.bytes.size
  · have hcovers : r.Covers (r.offset + k) := ⟨by omega, by omega⟩
    rw [if_pos (by omega), getElem?_lay_of_covers hapart hr (by omega) hcovers, Nat.add_sub_cancel_left]
  · rw [if_neg (by omega), Array.getElem?_eq_none (by omega)]

/-- What is within a run is found within its place. -/
theorem extract_extract {all part : Bytes} {start first last : Nat}
    (h : all.extract start (start + part.size) = part)
    (hlast : last ≤ part.size) : all.extract (start + first) (start + last) = part.extract first last := by
  calc all.extract (start + first) (start + last)
      = (all.extract start (start + part.size)).extract first last := by
        rw [Array.extract_extract, Nat.min_eq_left (by omega)]
    _ = part.extract first last := by rw [h]

end Run

/-! ## Elements -/

theorem Bytes.checkSize_eq_ok {size size' : Nat} (h : checkSize size = .ok size') : size = size' := by
  unfold checkSize at h
  split at h
  · exact Except.ok.inj h
  · cases h

theorem ElementType.size_encode (t : ElementType) (x : F32) : (t.encode x).size = t.size := by
  cases t <;> rfl

namespace Desc

variable {t : Desc} {strides : List Nat} {values : Array F32} {bytes : Bytes} {req : StrideReq}

/-- The bytes are those of a tensor with the given values: each element has its place, and all else
is zero. -/
structure Encoded (t : Desc) (values : Array F32) (strides : List Nat) (bytes : Bytes) : Prop where
  size : t.byteSize strides = .ok bytes.size
  element : ∀ i, t.Inside i → ∃ x, values[t.linear i]? = some x ∧
    bytes.extract (t.order.place strides i) (t.order.place strides i + t.dtype.size) = t.dtype.encode x
  blank : ∀ k, k < bytes.size →
    (∀ i, t.Inside i → ¬ (t.order.place strides i ≤ k ∧ k < t.order.place strides i + t.dtype.size)) →
      bytes[k]? = some 0

theorem run_eq_ok {size linear : Nat} {x : F32} {r : Run} (h : t.run strides size linear x = .ok r) :
    t.offset strides linear = .ok r.offset ∧ r.bytes = t.dtype.encode x ∧ r.offset + r.bytes.size ≤ size := by
  simp only [run, Run.checkWithin, Outcome.bind_eq_ok, Outcome.pure_eq_ok] at h
  obtain ⟨offset, hoffset, _, ⟨stop, hstop, hle⟩, rfl⟩ := h
  rw [Size.add_eq_ok hstop] at hle
  exact ⟨hoffset, rfl, Outcome.require_eq_ok.1 hle⟩

/-- Encoding lays out the elements one by one, each at its place. -/
theorem encode_eq_ok (hs : t.strides req = .ok strides) (h : t.encode values strides = .ok bytes) :
    ∃ size runs, t.byteSize strides = .ok size ∧ bytes = Run.lay size runs ∧ runs.length = t.dims.prod ∧
      ∀ i, t.Inside i → ∃ x r, values[t.linear i]? = some x ∧ runs[t.linear i]? = some r ∧
        r.offset = t.order.place strides i ∧ r.bytes = t.dtype.encode x ∧ r.offset + r.bytes.size ≤ size := by
  simp only [encode, Outcome.bind_eq_ok, Outcome.pure_eq_ok, Outcome.mapM_eq_ok] at h
  obtain ⟨_, _, total, htotal, _, henough, size, hsize, size', hcheck, runs, hruns, rfl⟩ := h
  have henough : total ≤ values.size := Outcome.require_eq_ok.1 henough
  obtain rfl := Bytes.checkSize_eq_ok hcheck
  have htotal : total = t.dims.prod := Size.product_eq_ok htotal
  have hcount : runs.length = total := by
    rw [← hruns.length_eq]
    simp
    omega
  refine ⟨size, runs, hsize, rfl, hcount.trans htotal, fun i hi => ?_⟩
  have hlt : t.linear i < total := htotal ▸ linear_lt hi
  have hin : t.linear i < values.size := by omega
  have hrun := hruns.get (i := t.linear i) (by simp; omega) (by omega)
  simp only [List.get_eq_getElem, List.getElem_zipIdx, List.getElem_take, Array.getElem_toList,
    Nat.zero_add] at hrun
  obtain ⟨hoffset, hbytes, hwithin⟩ := run_eq_ok hrun
  exact ⟨_, _, Array.getElem?_eq_getElem hin, List.getElem?_eq_getElem _,
    offset_linear (length_strides hs) hi hoffset, hbytes, hwithin⟩

theorem encode_encoded (hs : t.strides req = .ok strides) (h : t.encode values strides = .ok bytes) :
    t.Encoded values strides bytes := by
  obtain ⟨size, runs, hsize, rfl, hcount, helement⟩ := encode_eq_ok hs h
  -- Every run is that of an index, so different runs are apart.
  have hindex : ∀ k, k < runs.length → ∃ i r, t.Inside i ∧ t.linear i = k ∧ runs[k]? = some r ∧
      r.offset = t.order.place strides i ∧ r.bytes.size = t.dtype.size := by
    intro k hk
    obtain ⟨i, hi, rfl⟩ := exists_linear (hcount ▸ hk)
    obtain ⟨x, r, _, hr, hoffset, hbytes, _⟩ := helement i hi
    exact ⟨i, r, hi, rfl, hr, hoffset, hbytes ▸ ElementType.size_encode _ _⟩
  have hapart : runs.Pairwise Run.Apart := by
    refine List.pairwise_iff_getElem.2 fun k k' hk hk' hlt => ?_
    obtain ⟨i, r, hi, hki, hr, hoffset, hbytes⟩ := hindex k hk
    obtain ⟨i', r', hi', hki', hr', hoffset', hbytes'⟩ := hindex k' hk'
    rw [List.getElem?_eq_getElem hk, Option.some.injEq] at hr
    rw [List.getElem?_eq_getElem hk', Option.some.injEq] at hr'
    rw [hr, hr', Run.Apart, hoffset, hoffset', hbytes, hbytes']
    exact place_apart hs hi hi' (by omega)
  refine ⟨by rw [Run.size_lay]; exact hsize, fun i hi => ?_, fun k hk hfree => ?_⟩
  · obtain ⟨x, r, hx, hr, hoffset, hbytes, hwithin⟩ := helement i hi
    have := Run.extract_lay hapart (List.mem_of_getElem? hr) hwithin
    rw [hbytes, hoffset, ElementType.size_encode] at this
    exact ⟨x, hx, this⟩
  · rw [Run.size_lay] at hk
    refine Run.getElem?_lay_of_not_covers hk fun r hr hcovers => ?_
    obtain ⟨k', hk', rfl⟩ := List.mem_iff_getElem.1 hr
    obtain ⟨i, r, hi, _, hr, hoffset, hbytes⟩ := hindex k' hk'
    rw [List.getElem?_eq_getElem hk', Option.some.injEq] at hr
    rw [hr, Run.Covers, hoffset, hbytes] at hcovers
    exact hfree i hi hcovers

end Desc

end NetLower
