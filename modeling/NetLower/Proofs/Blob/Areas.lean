/-
The buffers of the running program.  Allocation puts every tensor that needs one in a place
of its own, inside the area of its use; the writer measures how far the tensors of each area
reach, and says so in the header.
-/
import NetLower.Proofs.Blob
import NetLower.Proofs.Pass.Memory

namespace NetLower

/-- The size that a header states for an area. -/
def Header.areaSize (h : Header) : MemoryArea → Nat
  | .input => h.inputSize.toNat
  | .output => h.outputSize.toNat
  | .blob => h.constSize.toNat
  | .bss => h.bssSize.toNat

namespace Graph

variable {g g' : Graph} {b : Blob}

/-! ## Extents -/

theorem dataEnd?_eq_ok {d : Data} {l : Location} {size : Nat} {stop : Option (MemoryArea × Nat)}
    (hl : d.location = some l) (hsize : d.Takes size) (h : dataEnd? d = .ok stop) :
    stop = some (l.area, l.offset + size) := by
  obtain ⟨strides, hstrides, hsize⟩ := hsize
  simp only [dataEnd?, hl, hstrides, hsize, Outcome.bind_eq_ok, Except.ok.injEq, exists_eq_left',
    Outcome.pure_eq_ok] at h
  obtain ⟨stop, hstop, rfl⟩ := h
  rw [Size.add_eq_ok hstop]

theorem dataEnd?_eq_some {d : Data} {stop : MemoryArea × Nat} (h : dataEnd? d = .ok (some stop)) :
    ∃ l size, d.location = some l ∧ d.Takes size ∧ stop = (l.area, l.offset + size) := by
  unfold dataEnd? at h
  split at h
  next l strides hl hstrides =>
    simp only [Outcome.bind_eq_ok, Outcome.pure_eq_ok, Option.some.injEq] at h
    obtain ⟨size, hsize, stop, hstop, rfl⟩ := h
    exact ⟨l, size, hl, ⟨strides, hstrides, hsize⟩, by rw [Size.add_eq_ok hstop]⟩
  · cases h

/-- Every tensor ends within the extent of its area. -/
theorem le_extents {sizes : AreaSizes} {id : DataId} {d : Data} {l : Location} {size : Nat}
    (h : g.extents = .ok sizes) (hd : g.data? id = some d) (hl : d.location = some l) (hsize : d.Takes size) :
    l.offset + size ≤ sizes.get l.area := by
  -- A tensor that is still to come is measured when its turn comes; afterwards extents only grow.
  let I (rest : List Data) (sizes : AreaSizes) : Prop := d ∈ rest ∨ l.offset + size ≤ sizes.get l.area
  rw [extents, ← Array.foldlM_toList] at h
  have hmem : d ∈ g.datas.toList := Array.mem_toList_iff.2 (Array.mem_of_getElem? hd)
  refine (Outcome.foldlM_keeps I (fun e rest sizes sizes' hI h => ?_) (.inl hmem) h).resolve_left (by simp)
  obtain ⟨stop?, hstop, h⟩ := Outcome.bind_eq_ok.1 h
  have hgrows : ∀ area, sizes.get area ≤ sizes'.get area := by
    intro area
    cases stop? with
    | none =>
      cases h
      exact Nat.le_refl _
    | some stop =>
      cases h
      rw [AreaSizes.get_set]
      split
      next harea => exact harea ▸ Nat.le_max_left _ _
      · exact Nat.le_refl _
  rcases hI with hmem | hle
  · rcases List.mem_cons.1 hmem with rfl | hmem
    · cases dataEnd?_eq_ok hl hsize hstop
      cases h
      right
      rw [AreaSizes.get_set, if_pos rfl]
      exact Nat.le_max_right _ _
    · exact .inl hmem
  · exact .inr (Nat.le_trans hle (hgrows l.area))

/-- The extent of an area is the least bound: it goes no further than its tensors do. -/
theorem extents_le {sizes : AreaSizes} {area : MemoryArea} {bound : Nat} (h : g.extents = .ok sizes)
    (hall : ∀ id d l size, g.data? id = some d → d.location = some l → l.area = area → d.Takes size →
      l.offset + size ≤ bound) : sizes.get area ≤ bound := by
  let I (rest : List Data) (sizes : AreaSizes) : Prop := rest ⊆ g.datas.toList ∧ sizes.get area ≤ bound
  rw [extents, ← Array.foldlM_toList] at h
  have hempty : ({} : AreaSizes).get area ≤ bound := by cases area <;> exact Nat.zero_le _
  refine (Outcome.foldlM_keeps I (fun d rest sizes sizes' hI h => ?_) ⟨List.Subset.refl _, hempty⟩ h).2
  obtain ⟨hmem, hrest⟩ := List.cons_subset.1 hI.1
  refine ⟨hrest, ?_⟩
  obtain ⟨stop?, hstop, h⟩ := Outcome.bind_eq_ok.1 h
  cases stop? with
  | none =>
    cases h
    exact hI.2
  | some stop =>
    obtain ⟨l, size, hl, hsize, rfl⟩ := dataEnd?_eq_some hstop
    cases h
    rw [AreaSizes.get_set]
    split
    next harea =>
      obtain ⟨k, hk⟩ := List.mem_iff_getElem?.1 hmem
      have hbound := hall ⟨k⟩ d l size (Array.getElem?_toList.symm.trans hk) hl harea.symm hsize
      exact Nat.max_le.2 ⟨harea ▸ hI.2, hbound⟩
    · exact hI.2

/-- The header states the extents. -/
theorem areaSize_of_blob (h : g.blob = .ok b) :
    ∃ extents, g.extents = .ok extents ∧ ∀ area, b.header.areaSize area = extents.get area := by
  simp only [blob, Outcome.bind_eq_ok, Outcome.pure_eq_ok] at h
  obtain ⟨_, _, _, _, extents, hextents, _, _, _, _, _, _, _, _, _, hconst, _, hbss, _, hinput, _, houtput,
    rfl⟩ := h
  refine ⟨extents, hextents, fun area => ?_⟩
  cases area with
  | input => exact headerSize_eq_ok hinput
  | output => exact headerSize_eq_ok houtput
  | blob => exact headerSize_eq_ok hconst
  | bss => exact headerSize_eq_ok hbss

/-! ## Buffers -/

/-- The buffers of a graph are sound, as against the areas that a header states. -/
structure Buffers (g : Graph) (h : Header) : Prop where
  /-- What belongs to the caller has a place, and so has what knows a stage that reads or writes it. -/
  located : ∀ id d, g.data? id = some d →
    ((∃ l, d.location = some l) ↔ d.usage ≠ .fake ∧ (d.usage = .input ∨ d.usage = .output ∨ d.isLinked = true))
  /-- A place lies in the area of the use, at a multiple of 64 bytes. -/
  area : ∀ id d l, g.data? id = some d → d.location = some l → d.usage.area? = some l.area ∧ 64 ∣ l.offset
  /-- Who has a place takes up a number of bytes from there on, -/
  takes : ∀ id d l, g.data? id = some d → d.location = some l → ∃ size, d.Takes size
  /-- which nobody else in the area takes up, -/
  apart : ∀ id id' d d' l l' size size', id ≠ id' → g.data? id = some d → g.data? id' = some d' →
    d.location = some l → d'.location = some l' → l.area = l'.area → d.Takes size → d'.Takes size' →
      l.offset + size ≤ l'.offset ∨ l'.offset + size' ≤ l.offset
  /-- which end within the area, -/
  within : ∀ id d l size, g.data? id = some d → d.location = some l → d.Takes size →
    l.offset + size ≤ h.areaSize l.area
  /-- and which hold all elements. -/
  elements : ∀ id d strides size i, g.data? id = some d → d.strides = some strides →
    d.desc.byteSize strides = .ok size → d.desc.Inside i → d.desc.order.place strides i + d.desc.dtype.size ≤ size

theorem area?_isSome {u : Usage} : u.area?.isSome ↔ u ≠ .fake := by
  cases u <;> simp [Usage.area?]

/-- A placed tensor is the unplaced one at the place it was given. -/
theorem Allocation.data_eq {place : DataId → Option Location} (u : g.Unplaced)
    (h : ∀ id, g'.data? id = (g.data? id).map fun d => { d with location := (place id).or d.location })
    {id : DataId} {d' : Data} (hd' : g'.data? id = some d') :
    ∃ d, g.data? id = some d ∧ d' = { d with location := place id } := by
  rw [h] at hd'
  obtain ⟨d, hd, rfl⟩ := Option.map_eq_some_iff.1 hd'
  exact ⟨d, hd, by rw [u id d hd, Option.or_none]⟩

/-- Allocation and the writer agree on sound buffers. -/
theorem Buffers.of_allocated {config : Config} {changed : Bool}
    (hstrided : ∀ id d, g.data? id = some d → d.Strided)
    (hfree : g.Unplaced) (h : Pass.allocateMemory.run config g = .ok (g', changed)) (hb : g'.blob = .ok b) :
    g'.Buffers b.header := by
  obtain ⟨place, a, -, hplaced⟩ := allocateMemory_eq_ok h
  obtain ⟨extents, hextents, hsizes⟩ := areaSize_of_blob hb
  have hold {id : DataId} {d' : Data} (hd' : g'.data? id = some d') :
      ∃ d, g.data? id = some d ∧ d' = { d with location := place id } := Allocation.data_eq hfree hplaced hd'
  refine ⟨?_, ?_, ?_, ?_, ?_, ?_⟩
  · intro id d' hd'
    obtain ⟨d, hd, rfl⟩ := hold hd'
    show (∃ l, place id = some l) ↔ _
    rw [← Option.isSome_iff_exists, ← @Option.isSome_map _ _ Location.area, a.area id d hd,
      Option.isSome_iff_exists, ← area?_isSome, Option.isSome_iff_exists]
    simp only [neededArea?_eq_some, exists_and_right]
    rfl
  · intro id d' l hd' hl
    obtain ⟨d, hd, rfl⟩ := hold hd'
    have harea : d.neededArea? = some l.area := by
      rw [← a.area id d hd, show place id = some l from hl]
      rfl
    exact ⟨(neededArea?_eq_some.1 harea).1, a.aligned id l hl⟩
  · intro id d' l hd' hl
    obtain ⟨d, hd, rfl⟩ := hold hd'
    exact a.takes id l d hl hd
  · intro id id' d₁ d₂ l l' size size' hne hd₁ hd₂ hl hl' harea hsize hsize'
    obtain ⟨d, hd, rfl⟩ := hold hd₁
    obtain ⟨d', hd', rfl⟩ := hold hd₂
    exact a.apart hne hl hl' harea hd hd' hsize hsize'
  · intro id d l size hd hl hsize
    rw [hsizes]
    exact le_extents hextents hd hl hsize
  · intro id d' strides size i hd' hstrides hsize hi
    obtain ⟨d, hd, rfl⟩ := hold hd'
    obtain ⟨strides', hcomputed, hstrides'⟩ := hstrided id d hd
    rw [show d.strides = some strides from hstrides, Option.some.injEq] at hstrides'
    subst hstrides'
    exact Desc.place_within hcomputed hi hsize

/-- After allocation, the buffers of a written graph are sound. Where the back references of tensors
are right, whatever a stage touches has its place. -/
theorem allocated_buffers_sound {config : Config} {changed : Bool}
    (hstrided : ∀ id d, g.data? id = some d → d.Strided) (hfree : ∀ id d, g.data? id = some d → d.location = none)
    (h : Pass.allocateMemory.run config g = .ok (g', changed)) (hb : g'.blob = .ok b) :
    g'.Buffers b.header ∧
      (g.WellFormed → ∀ kind stage id d, g'.Touches kind stage id → g'.data? id = some d → d.usage ≠ .fake →
        ∃ l, d.location = some l) := by
  have buffers := Buffers.of_allocated hstrided hfree h hb
  obtain ⟨place, _, same, _⟩ := allocateMemory_eq_ok h
  refine ⟨buffers, fun wf kind stage id d htouches hd hreal => ?_⟩
  exact (buffers.located id d hd).2 ⟨hreal, .inr (.inr ((same.wellFormed wf).isLinked htouches hd))⟩

/-! ### Two graphs of copies -/

theorem half_fits : ∃ c, Order.canonical? [1].length = some c ∧ c.sameDims .c = true :=
  ⟨.c, rfl, Order.c.sameDims_self⟩

/-- One half-precision number. -/
def half : Desc := { dtype := .f16, dims := [1], order := .c, fits := half_fits }

/-- A number that is copied twice, with strides and places as far as they are given. -/
def copiedTwice (strides : Option (List Nat)) (place : Location → Option Location) : Graph :=
  { name := "copied twice"
    datas := #[
      { name := "x", desc := half, role := .input, consumers := [⟨0⟩], strides, location := place ⟨.input, 0⟩ },
      { name := "y", desc := half, role := .intermediate, producer := some ⟨1⟩, consumers := [⟨2⟩], strides
        location := place ⟨.bss, 0⟩ },
      { name := "z", desc := half, role := .intermediate, producer := some ⟨3⟩, strides,
        location := place ⟨.bss, 64⟩ }]
    stages := #[some { name := "first", kind := .copy, inputs := [⟨0⟩], outputs := [⟨1⟩] },
      some { name := "second", kind := .copy, inputs := [⟨2⟩], outputs := [⟨3⟩] }]
    edges := #[⟨.input, ⟨0⟩, ⟨0⟩, 0⟩, ⟨.output, ⟨1⟩, ⟨0⟩, 0⟩, ⟨.input, ⟨1⟩, ⟨1⟩, 0⟩, ⟨.output, ⟨2⟩, ⟨1⟩, 0⟩] }

/-- The two copies are apart in scratch memory, which is as large as the second of them needs. -/
theorem copiedTwice_buffers_sound :
    ∃ g₁ c₁ g₂ c₂ b, Pass.finalizeLayout.run {} (copiedTwice none fun _ => none) = .ok (g₁, c₁) ∧
      Pass.allocateMemory.run {} g₁ = .ok (g₂, c₂) ∧ g₂.blob = .ok b ∧ g₂.Buffers b.header ∧
      (g₂.data? ⟨1⟩).map Data.location = some (some ⟨.bss, 0⟩) ∧
      (g₂.data? ⟨2⟩).map Data.location = some (some ⟨.bss, 64⟩) ∧ b.header.areaSize .bss = 66 := by
  have hlayout : Pass.finalizeLayout.run {} (copiedTwice none fun _ => none) =
      .ok (copiedTwice (some [2]) fun _ => none, true) := by decide +kernel
  have hmemory : Pass.allocateMemory.run {} (copiedTwice (some [2]) fun _ => none) =
      .ok (copiedTwice (some [2]) some, true) := by decide +kernel
  have horder : (copiedTwice (some [2]) some).runOrder = .ok [⟨0⟩, ⟨1⟩] := by decide +kernel
  have hwritten : (do return (← (copiedTwice (some [2]) some).blob).header.areaSize .bss) = Except.ok 66 := by
    rw [blob, horder]
    decide +kernel
  simp only [Outcome.bind_eq_ok, Outcome.pure_eq_ok] at hwritten
  obtain ⟨b, hb, hbss⟩ := hwritten
  obtain ⟨hstrided, hfree⟩ := finalizeLayoutPass_strided hlayout
  have hfree : (copiedTwice (some [2]) fun _ => none).Unplaced := hfree fun id d hd => by
    have hmem := Array.mem_toList_iff.2 (Array.mem_of_getElem? hd)
    simp only [copiedTwice, List.mem_cons, List.not_mem_nil, or_false] at hmem
    rcases hmem with rfl | rfl | rfl <;> rfl
  exact ⟨_, _, _, _, b, hlayout, hmemory, hb, (allocated_buffers_sound hstrided hfree hmemory hb).1, rfl,
    rfl, hbss⟩

/-- A copy that was taken out and made anew; then the edge of the old one is led elsewhere. -/
def staleEdge : Outcome Graph := do
  let (x, g) ← addData { name := "stale edge" } "x" half .input
  let (y, g) ← g.addData "y" half .intermediate
  let (z, g) ← g.addData "z" half .intermediate
  let (old, g) ← g.addStage { name := "old", kind := .copy } [x] [y]
  let g ← g.removeStage old
  let (_, g) ← g.addStage { name := "new", kind := .copy } [x] [y]
  g.replaceOutput ⟨1⟩ z

set_option maxRecDepth 2000 in
/-- Leading the stale edge elsewhere makes the tensor forget who writes it now, so it gets no place. -/
theorem staleEdge_leaves_written_unplaced :
    ∃ g g₁ c₁ g₂ c₂ b d, staleEdge = .ok g ∧ Pass.finalizeLayout.run {} g = .ok (g₁, c₁) ∧
      Pass.allocateMemory.run {} g₁ = .ok (g₂, c₂) ∧ g₂.blob = .ok b ∧ g₂.Touches .output ⟨1⟩ ⟨1⟩ ∧
      g₂.data? ⟨1⟩ = some d ∧ d.usage = .intermediate ∧ d.location = none := by
  have hall : (do
      let g ← staleEdge
      let laid ← Pass.finalizeLayout.run {} g
      let placed ← Pass.allocateMemory.run {} laid.1
      let _ ← placed.1.blob
      let s ← placed.1.stage ⟨1⟩
      let d ← placed.1.data ⟨1⟩
      return (s.outputs, placed.1.target? ⟨3⟩, d.usage, d.location)) =
      Except.ok ([⟨3⟩], some ⟨1⟩, .intermediate, none) := by decide +kernel
  simp only [Outcome.bind_eq_ok, Outcome.pure_eq_ok, Prod.mk.injEq, data_eq_ok, stage_eq_ok] at hall
  obtain ⟨g, hg, ⟨g₁, c₁⟩, hlayout, ⟨g₂, c₂⟩, hmemory, b, hb, s, hs, d, hd, hslots, htarget, husage, hfree⟩ := hall
  have htouches : g₂.Touches .output ⟨1⟩ ⟨1⟩ := ⟨s, hs, ⟨3⟩, by simp [Stage.slots, hslots], htarget⟩
  exact ⟨g, g₁, c₁, g₂, c₂, b, d, hg, hlayout, hmemory, hb, htouches, hd, husage, hfree⟩

end Graph

end NetLower
