/-
Slices of a tensor along an axis.  Parts are accepted exactly if they differ from the whole
in nothing but their extents along the axis, and these add up to that of the whole.  Their
offsets are then the sums of the extents before them, so each position along the axis lies
in exactly one part.
-/
import NetLower.Proofs.Faults
import NetLower.Proofs.Tensor.Places
import NetLower.Stage.Slices

namespace NetLower

open Outcome (FaultsOnly)

/-! ## Parts of a tensor -/

namespace Desc

variable {t t' part whole : Desc} {axis : Dim}

/-- The size along an axis; a tensor that lacks the axis has none. -/
def extent (t : Desc) (axis : Dim) : Nat := (t.dim? axis).getD 0

/-- The part has the element type and the sizes of the whole, except that its size along the axis
may be another. -/
structure SliceOf (part whole : Desc) (axis : Dim) : Prop where
  dtype : part.dtype = whole.dtype
  rank : part.rank = whole.rank
  others : ∀ x, x ≠ axis → part.dim? x = whole.dim? x

/-- The list of sizes is made up of the sizes of the canonical dimensions. -/
theorem dims_eq_map (t : Desc) : t.dims = t.canonical.dims.map fun x => (t.dim? x).getD 0 := by
  have hsizes : (t.canonical.dims.zip t.dims).map Prod.snd =
      (t.canonical.dims.zip t.dims).map fun entry => (t.dim? entry.1).getD 0 := by
    refine List.map_congr_left fun entry hentry => ?_
    rw [dim?_of_mem_zip hentry, Option.getD_some]
  calc t.dims = (t.canonical.dims.zip t.dims).map Prod.snd := t.map_snd_zip.symm
    _ = ((t.canonical.dims.zip t.dims).map Prod.fst).map fun x =>
      (t.dim? x).getD 0 := by rw [hsizes, List.map_map]; rfl
    _ = t.canonical.dims.map fun x => (t.dim? x).getD 0 := by rw [map_fst_zip]

/-- Tensors of one rank with the same size in every dimension have the same sizes. -/
theorem dims_eq_of_dim? (hrank : t'.rank = t.rank) (h : ∀ x, t'.dim? x = t.dim? x) : t'.dims = t.dims := by
  rw [t'.dims_eq_map, t.dims_eq_map, canonical_congr hrank]
  exact List.map_congr_left fun x _ => by rw [h]

/-- The size of a dimension stands where the dimension stands in the canonical order. -/
theorem dim?_eq_bind (t : Desc) (x : Dim) :
    t.dim? x = (t.canonical.dims.idxOf? x).bind fun index => t.dims[index]? := by
  cases hx : t.canonical.dims.idxOf? x with
  | some index => exact lookup_zip hx
  | none =>
    rw [List.idxOf?_eq_none_iff] at hx
    refine List.lookup_eq_none_iff.2 fun entry hentry => bne_iff_ne.2 ?_
    rintro rfl
    exact hx (List.of_mem_zip hentry).1

/-- Tensors of one rank have the same dimensions. -/
theorem exists_dim?_of_rank {x : Dim} {size : Nat} (hrank : t'.rank = t.rank) (h : t.dim? x = some size) :
    ∃ size', t'.dim? x = some size' := by
  rw [dim?_eq_bind, Option.bind_eq_some_iff] at h
  obtain ⟨index, hindex, hsize⟩ := h
  have hlt : index < t'.dims.length := by
    rw [show t'.dims.length = t.dims.length from hrank]
    exact (List.getElem?_eq_some_iff.1 hsize).1
  refine ⟨t'.dims[index], ?_⟩
  rw [dim?_eq_bind, canonical_congr hrank, hindex, Option.bind_some, List.getElem?_eq_getElem hlt]

theorem dim?_setDim_of_ne {x y : Dim} {size : Nat} (h : t.setDim x size = .ok t') (hne : y ≠ x) :
    t'.dim? y = t.dim? y := by
  have hrank := (setDim_eq_ok h).2.1
  unfold setDim at h
  split at h
  · cases h
  next index hindex =>
    have hdims : t'.dims = t.dims.set index size := by
      cases h
      rfl
    rw [dim?_eq_bind, dim?_eq_bind, canonical_congr hrank, hdims]
    refine Option.bind_congr fun k hk => List.getElem?_set_ne ?_
    rintro rfl
    -- One place of the canonical order holds one dimension.
    obtain ⟨_, hy, _⟩ := List.idxOf?_eq_some_iff.1 hk
    obtain ⟨_, hx, _⟩ := List.idxOf?_eq_some_iff.1 hindex
    exact hne (hy.symm.trans hx)

/-- Setting the size of the whole along the axis to that of a part gives the sizes of the part. -/
theorem sliceOf_iff {total : Nat} (haxis : whole.dim? axis = some total) : part.SliceOf whole axis ↔
    ∃ expected, whole.setDim axis (part.extent axis) = .ok expected ∧ part.dims = expected.dims ∧
      part.dtype = whole.dtype := by
  constructor
  · intro h
    obtain ⟨expected, hexpected⟩ := @setDim_of_dim? whole axis (part.extent axis) _ haxis
    obtain ⟨_, hrank, hsize⟩ := setDim_eq_ok hexpected
    refine ⟨expected, hexpected, dims_eq_of_dim? (h.rank.trans hrank.symm) fun x => ?_, h.dtype⟩
    by_cases hx : x = axis
    · subst hx
      obtain ⟨size, hpart⟩ := exists_dim?_of_rank h.rank haxis
      rw [hsize, hpart, extent, hpart, Option.getD_some]
    · rw [h.others x hx, dim?_setDim_of_ne hexpected hx]
  · rintro ⟨expected, hexpected, hdims, hdtype⟩
    obtain ⟨_, hrank, _⟩ := setDim_eq_ok hexpected
    refine ⟨hdtype, (congrArg List.length hdims).trans hrank, fun x hx => ?_⟩
    rw [dim?_congr hdims, dim?_setDim_of_ne hexpected hx]

end Desc

/-! ## Running offsets -/

/-- Where intervals of these sizes begin, one behind the other from `start` on. -/
def runningOffsets (start : Nat) : List Nat → List Nat
  | [] => []
  | size :: sizes => start :: runningOffsets (start + size) sizes

theorem length_runningOffsets (start : Nat) (sizes : List Nat) :
    (runningOffsets start sizes).length = sizes.length := by
  induction sizes generalizing start with
  | nil => rfl
  | cons size sizes ih => rw [runningOffsets, List.length_cons, ih, List.length_cons]

/-- Each interval begins behind those before it. -/
theorem getElem?_runningOffsets {start k : Nat} {sizes : List Nat} {offset : Nat}
    (h : (runningOffsets start sizes)[k]? = some offset) : offset = start + (sizes.take k).sum := by
  induction sizes generalizing start k with
  | nil => simp [runningOffsets] at h
  | cons size sizes ih =>
    cases k with
    | zero => simpa [runningOffsets, eq_comm] using h
    | succ k =>
      rw [runningOffsets, List.getElem?_cons_succ] at h
      rw [ih h, List.take_succ_cons, List.sum_cons, Nat.add_assoc]

/-- The `k`-th of the intervals with these offsets and sizes holds a position. -/
def IntervalHolds (offsets sizes : List Nat) (k i : Nat) : Prop :=
  ∃ offset size, offsets[k]? = some offset ∧ sizes[k]? = some size ∧ offset ≤ i ∧ i < offset + size

/-- Intervals of these sizes, one for each, tile the positions below `total`. -/
structure Tiling (offsets sizes : List Nat) (total : Nat) : Prop where
  length : offsets.length = sizes.length
  /-- Each begins where those before it end. -/
  offset : ∀ k offset, offsets[k]? = some offset → offset = (sizes.take k).sum
  /-- No two have a position in common. -/
  apart : ∀ j k i, IntervalHolds offsets sizes j i → IntervalHolds offsets sizes k i → j = k
  /-- Together they hold every position below the total and no other. -/
  cover : ∀ i, i < total ↔ ∃ k, IntervalHolds offsets sizes k i

section running

variable {start size k i : Nat} {sizes : List Nat}

theorem intervalHolds_zero : IntervalHolds (runningOffsets start (size :: sizes)) (size :: sizes) 0 i ↔
    start ≤ i ∧ i < start + size := by
  simp [IntervalHolds, runningOffsets]

theorem intervalHolds_succ : IntervalHolds (runningOffsets start (size :: sizes)) (size :: sizes) (k + 1) i ↔
    IntervalHolds (runningOffsets (start + size) sizes) sizes k i := by
  simp [IntervalHolds, runningOffsets]

theorem intervalHolds_iff : (∃ k, IntervalHolds (runningOffsets start sizes) sizes k i) ↔
    start ≤ i ∧ i < start + sizes.sum := by
  induction sizes generalizing start with
  | nil => simp [IntervalHolds]
  | cons size sizes ih =>
    rw [← Nat.or_exists_add_one]
    simp only [intervalHolds_zero, intervalHolds_succ, ih, List.sum_cons]
    omega

theorem intervalHolds_unique {j : Nat} (hj : IntervalHolds (runningOffsets start sizes) sizes j i)
    (hk : IntervalHolds (runningOffsets start sizes) sizes k i) : j = k := by
  induction sizes generalizing start j k with
  | nil => simp [IntervalHolds] at hj
  | cons size sizes ih =>
    cases j with
    | zero =>
      cases k with
      | zero => rfl
      | succ k =>
        have hfirst := intervalHolds_zero.1 hj
        have hlater := intervalHolds_iff.1 ⟨k, intervalHolds_succ.1 hk⟩
        omega
    | succ j =>
      cases k with
      | zero =>
        have hfirst := intervalHolds_zero.1 hk
        have hlater := intervalHolds_iff.1 ⟨j, intervalHolds_succ.1 hj⟩
        omega
      | succ k => rw [ih (intervalHolds_succ.1 hj) (intervalHolds_succ.1 hk)]

end running

/-- Intervals one behind the other tile what they add up to. -/
theorem runningOffsets_tile (sizes : List Nat) : Tiling (runningOffsets 0 sizes) sizes sizes.sum where
  length := length_runningOffsets 0 sizes
  offset k offset h := by rw [getElem?_runningOffsets h, Nat.zero_add]
  apart _ _ _ hj hk := intervalHolds_unique hj hk
  cover i := by simp [intervalHolds_iff]

/-! ## Offsets of slices -/

section offsets

variable {whole : Desc} {axis : Dim} {total : Nat} (stage : String)

/-- The loop over the parts goes through exactly if each of them is a slice, and notes where each
begins. -/
theorem sliceOffsetsFrom_eq_ok (haxis : whole.dim? axis = some total) {parts : List Desc} {offset : Nat}
    (hsum : offset + (parts.map (·.extent axis)).sum < Size.range) {offsets : List Nat} {stop : Nat} :
    sliceOffsetsFrom stage whole axis offset parts = .ok (offsets, stop) ↔
      (∀ part ∈ parts, part.SliceOf whole axis) ∧ offsets = runningOffsets offset (parts.map (·.extent axis)) ∧
        stop = offset + (parts.map (·.extent axis)).sum := by
  induction parts generalizing offset offsets stop with
  | nil => simp [sliceOffsetsFrom, runningOffsets, eq_comm]
  | cons part parts ih =>
    rw [List.map_cons, List.sum_cons, ← Nat.add_assoc] at hsum
    constructor
    · intro h
      simp only [sliceOffsetsFrom, Outcome.bind_eq_ok, Outcome.pure_eq_ok, Prod.mk.injEq] at h
      obtain ⟨expected, hexpected, _, hfits, next, hnext, ⟨rest, stop⟩, hrest, rfl, rfl⟩ := h
      obtain rfl := Size.add_eq_ok hnext
      have hpart := (Desc.sliceOf_iff haxis).2 ⟨expected, hexpected, Outcome.require_eq_ok.1 hfits⟩
      obtain ⟨hparts, rfl, rfl⟩ := (ih hsum).1 hrest
      exact ⟨List.forall_mem_cons.2 ⟨hpart, hparts⟩, rfl, Nat.add_assoc ..⟩
    · rintro ⟨hparts, rfl, rfl⟩
      obtain ⟨hpart, hparts⟩ := List.forall_mem_cons.1 hparts
      obtain ⟨expected, hexpected, hfits⟩ := (Desc.sliceOf_iff haxis).1 hpart
      have hnext : Size.add offset (part.extent axis) = .ok (offset + part.extent axis) :=
        if_pos (Nat.lt_of_le_of_lt (Nat.le_add_right _ _) hsum)
      have hrest := (ih hsum).2 ⟨hparts, rfl, rfl⟩
      simp only [sliceOffsetsFrom, Outcome.bind_eq_ok, Outcome.pure_eq_ok, Prod.mk.injEq]
      exact ⟨expected, hexpected, (), Outcome.require_eq_ok.2 hfits, _, hnext, _, hrest, rfl, Nat.add_assoc ..⟩

/-- Slices are accepted exactly if they make up the whole. -/
theorem sliceOffsets_eq_ok {parts : List Desc} (hsum : (parts.map (·.extent axis)).sum < Size.range)
    {offsets : List Nat} : sliceOffsets stage whole parts axis = .ok offsets ↔
      whole.dim? axis = some (parts.map (·.extent axis)).sum ∧ (∀ part ∈ parts, part.SliceOf whole axis) ∧
        offsets = runningOffsets 0 (parts.map (·.extent axis)) := by
  unfold sliceOffsets
  cases haxis : whole.dim? axis with
  | none => simp [throw, throwThe, MonadExceptOf.throw]
  | some total =>
    have hfrom {offsets : List Nat} {stop : Nat} := @sliceOffsetsFrom_eq_ok _ _ _ stage haxis parts 0
      (by rwa [Nat.zero_add]) offsets stop
    rw [Nat.zero_add] at hfrom
    simp only [Outcome.bind_eq_ok, Outcome.pure_eq_ok, Prod.exists, hfrom, Option.some.injEq]
    constructor
    · rintro ⟨_, _, ⟨hparts, rfl, rfl⟩, _, hcover, rfl⟩
      exact ⟨(Outcome.require_eq_ok.1 hcover).symm, hparts, rfl⟩
    · rintro ⟨rfl, hparts, rfl⟩
      exact ⟨_, _, ⟨hparts, rfl, rfl⟩, (), Outcome.require_eq_ok.2 rfl, rfl⟩

/-- Only a sum beyond 64 bits is a fault. -/
theorem faultsOnly_sliceOffsetsFrom {P : Fault → Prop} {parts : List Desc} {offset : Nat}
    (hsum : Size.range ≤ offset + (parts.map (·.extent axis)).sum → P .add) :
    FaultsOnly P (sliceOffsetsFrom stage whole axis offset parts) := by
  induction parts generalizing offset with
  | nil => simp [sliceOffsetsFrom]
  | cons part parts ih =>
    rw [List.map_cons, List.sum_cons, ← Nat.add_assoc] at hsum
    simp only [sliceOffsetsFrom, Outcome.failsOnly_bind, Outcome.failsOnly_require, Outcome.failsOnly_pure,
      Size.faultsOnly_add, Desc.faultsOnly_setDim, implies_true, and_true, true_and]
    intro expected _
    refine ⟨fun _ => trivial, fun _ _ => ⟨fun hlarge => hsum ?_, fun next hnext => ih ?_⟩⟩
    · exact Nat.le_trans hlarge (Nat.le_add_right _ _)
    · exact Size.add_eq_ok hnext ▸ hsum

theorem faultsOnly_sliceOffsets {P : Fault → Prop} {parts : List Desc}
    (hsum : Size.range ≤ (parts.map (·.extent axis)).sum → P .add) :
    FaultsOnly P (sliceOffsets stage whole parts axis) := by
  unfold sliceOffsets
  split
  · simp
  · simp [@faultsOnly_sliceOffsetsFrom whole axis stage P parts 0 (by rwa [Nat.zero_add])]

end offsets

/-- Slices whose extents can be added up have offsets exactly if they make up the whole: it has the
axis, each of them is like it except for the size along the axis, and these sizes add up to its own.
Otherwise they are refused, which is never a fault. The offsets tile the whole along the axis. -/
theorem sliceOffsets_tile_whole (stage : String) (whole : Desc) (parts : List Desc) (axis : Dim)
    (hsum : (parts.map (·.extent axis)).sum < Size.range) :
    ((∃ offsets, sliceOffsets stage whole parts axis = .ok offsets) ↔
        whole.dim? axis = some (parts.map (·.extent axis)).sum ∧ ∀ part ∈ parts, part.SliceOf whole axis) ∧
      (∀ cause, sliceOffsets stage whole parts axis ≠ .error (.fault cause)) ∧
      ∀ offsets, sliceOffsets stage whole parts axis = .ok offsets →
        Tiling offsets (parts.map (·.extent axis)) (whole.extent axis) := by
  refine ⟨?_, fun cause h => ?_, fun offsets h => ?_⟩
  · simp only [sliceOffsets_eq_ok stage hsum, exists_and_left, exists_eq, and_true]
  · exact (@faultsOnly_sliceOffsets whole axis stage (fun _ => False) parts (Nat.not_le.2 hsum)).fault h
  · obtain ⟨haxis, _, rfl⟩ := (sliceOffsets_eq_ok stage hsum).1 h
    rw [Desc.extent, haxis]
    exact runningOffsets_tile _

/-- Images of four channels and two by two pixels. -/
def images (count : Nat) : Desc :=
  { dtype := .f16, dims := [count, 4, 2, 2], order := .nchw, fits := ⟨.nchw, rfl, Order.nchw.sameDims_self⟩ }

/-- Three images are cut into one and two; two single ones leave a gap. -/
theorem images_tile :
    sliceOffsets "cut" (images 3) [images 1, images 2] .n = .ok [0, 1] ∧ Tiling [0, 1] [1, 2] 3 ∧
      ¬ ∃ offsets, sliceOffsets "cut" (images 3) [images 1, images 1] .n = .ok offsets := by
  have hcut : sliceOffsets "cut" (images 3) [images 1, images 2] .n = .ok [0, 1] := by decide +kernel
  refine ⟨hcut, (sliceOffsets_tile_whole "cut" (images 3) [images 1, images 2] .n (by decide)).2.2 _ hcut,
    fun hgap => ?_⟩
  have hsum := ((sliceOffsets_tile_whole "cut" (images 3) [images 1, images 1] .n (by decide)).1.1 hgap).1
  revert hsum
  decide

end NetLower
