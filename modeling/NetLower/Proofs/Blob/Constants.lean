/-
Constants in a blob.  Each constant is a run of the constant section, the runs of different
constants do not meet, and within its run every element has its place.  So whoever reads the
descriptor of a constant, and adds up the strides it states, finds the value of the element.
-/
import NetLower.Proofs.Blob.Areas
import NetLower.Proofs.Blob.Descriptors

namespace NetLower

namespace Data

variable {d : Data} {r : Run} {size : Nat}

/-- The element of an index begins here, in the area of the tensor. -/
def ElementAt (d : Data) (i : Dim → Nat) (start : Nat) : Prop :=
  ∃ l strides, d.location = some l ∧ d.strides = some strides ∧ d.desc.Inside i ∧
    start = l.offset + d.desc.order.place strides i

/-- The run is that of the tensor, a constant of the blob. -/
def StoredAs (d : Data) (r : Run) : Prop :=
  ∃ content, d.location = some ⟨.blob, r.offset⟩ ∧ d.role = .const content ∧
    d.desc.encode content (d.strides.getD []) = .ok r.bytes

theorem StoredAs.location (h : d.StoredAs r) : d.location = some ⟨.blob, r.offset⟩ := by
  obtain ⟨_, hl, _⟩ := h
  exact hl

theorem storedAs_of_constRun (h : Graph.constRun size d = .ok (some r)) :
    d.StoredAs r ∧ r.offset + r.bytes.size ≤ size := by
  unfold Graph.constRun at h
  split at h
  next offset hlocation =>
    split at h
    · cases h
    next content hcontent =>
      simp only [Run.checkWithin, Outcome.bind_eq_ok, Outcome.pure_eq_ok, Option.some.injEq] at h
      obtain ⟨bytes, hbytes, _, ⟨stop, hstop, hle⟩, rfl⟩ := h
      have hle := Outcome.require_eq_ok.1 hle
      rw [Size.add_eq_ok hstop] at hle
      exact ⟨⟨content, hlocation, content?_eq_some.1 hcontent, hbytes⟩, hle⟩
  · cases h

/-- A tensor with a place in the blob is written. -/
theorem constRun_of_location {offset : Nat} {found : Option Run} (hl : d.location = some ⟨.blob, offset⟩)
    (h : Graph.constRun size d = .ok found) : ∃ r, found = some r := by
  simp only [Graph.constRun, hl] at h
  split at h
  · cases h
  · simp only [Outcome.bind_eq_ok, Outcome.pure_eq_ok] at h
    obtain ⟨_, _, _, _, rfl⟩ := h
    exact ⟨_, rfl⟩

/-- The run of a constant holds its elements. -/
theorem StoredAs.encoded (h : d.StoredAs r) (hd : d.Strided) :
    ∃ content strides, d.role = .const content ∧ d.strides = some strides ∧
      d.desc.Encoded content strides r.bytes := by
  obtain ⟨content, _, hrole, hbytes⟩ := h
  obtain ⟨strides, hcomputed, hstrides⟩ := hd
  rw [hstrides] at hbytes
  exact ⟨content, strides, hrole, hstrides, Desc.encode_encoded hcomputed hbytes⟩

theorem StoredAs.takes (h : d.StoredAs r) (hd : d.Strided) : d.Takes r.bytes.size := by
  obtain ⟨_, strides, _, hstrides, e⟩ := h.encoded hd
  exact ⟨strides, hstrides, e.size⟩

end Data

/-- The bytes behind the constant offset are those of the constants. -/
theorem Blob.Laid.getElem?_const {b : Blob} {table gap consts : Bytes} (l : b.Laid table gap consts) {k : Nat}
    (hk : k < consts.size) : b.bytes[b.header.constOffset.toNat + k]? = consts[k]? := by
  have hlength := l.length
  have hsize := l.constSize
  rw [Blob.length] at hlength
  rw [← l.constSection_eq, Blob.constSection, Array.getElem?_extract, if_pos (by omega)]

namespace Graph

variable {g : Graph} {b : Blob} {runs : List Run} {size : Nat}

/-! ## The constant section -/

theorem constRuns_eq_ok (h : g.constRuns size = .ok runs) :
    ∃ found, List.Forall₂ (fun d r => constRun size d = .ok r) g.datas.toList found ∧
      runs = found.filterMap id := by
  simp only [constRuns, Outcome.bind_eq_ok, Outcome.pure_eq_ok] at h
  obtain ⟨size', hsize, found, hfound, rfl⟩ := h
  obtain rfl := Bytes.checkSize_eq_ok hsize
  exact ⟨found, Outcome.mapM_eq_ok.1 hfound, rfl⟩

/-- The runs are those of the constants that have a place. -/
theorem mem_constRuns (h : g.constRuns size = .ok runs) {r : Run} (hr : r ∈ runs) :
    ∃ id d, g.data? id = some d ∧ d.StoredAs r ∧ r.offset + r.bytes.size ≤ size := by
  obtain ⟨found, hfound, rfl⟩ := constRuns_eq_ok h
  obtain ⟨o, hmem, rfl⟩ := List.mem_filterMap.1 hr
  obtain ⟨k, hk⟩ := List.mem_iff_getElem?.1 hmem
  obtain ⟨d, hd, hrun⟩ := forall₂_getElem? hfound.flip hk
  obtain ⟨hstored, hle⟩ := Data.storedAs_of_constRun hrun
  exact ⟨⟨k⟩, d, by rw [data?, ← Array.getElem?_toList]; exact hd, hstored, hle⟩

theorem constRuns_of_location (h : g.constRuns size = .ok runs) {id : DataId} {d : Data} {offset : Nat}
    (hd : g.data? id = some d) (hl : d.location = some ⟨.blob, offset⟩) : ∃ r ∈ runs, d.StoredAs r := by
  obtain ⟨found, hfound, rfl⟩ := constRuns_eq_ok h
  obtain ⟨o, ho, hrun⟩ := forall₂_getElem? hfound (show g.datas.toList[id.index]? = some d by
    rw [Array.getElem?_toList]; exact hd)
  obtain ⟨r, rfl⟩ := Data.constRun_of_location hl hrun
  exact ⟨r, List.mem_filterMap.2 ⟨_, List.mem_of_getElem? ho, rfl⟩, (Data.storedAs_of_constRun hrun).1⟩

/-- The runs of different constants do not meet. -/
theorem Buffers.runs_apart {header : Header} (buffers : g.Buffers header)
    (hstrided : ∀ id d, g.data? id = some d → d.Strided)
    (h : g.constRuns size = .ok runs) : runs.Pairwise Run.Apart := by
  obtain ⟨found, hfound, rfl⟩ := constRuns_eq_ok h
  rw [List.pairwise_filterMap, List.pairwise_iff_getElem]
  intro k k' hk hk' hlt r hr r' hr'
  have stored {k : Nat} {r : Run} (hr : found[k]? = some (some r)) : ∃ d, g.data? ⟨k⟩ = some d ∧ d.StoredAs r := by
    obtain ⟨d, hd, hrun⟩ := forall₂_getElem? hfound.flip hr
    exact ⟨d, by rw [data?, ← Array.getElem?_toList]; exact hd, (Data.storedAs_of_constRun hrun).1⟩
  obtain ⟨d, hd, hstored⟩ := stored (List.getElem?_eq_some_iff.2 ⟨hk, hr⟩)
  obtain ⟨d', hd', hstored'⟩ := stored (List.getElem?_eq_some_iff.2 ⟨hk', hr'⟩)
  have hne : (⟨k⟩ : DataId) ≠ ⟨k'⟩ := fun heq => Nat.ne_of_lt hlt (DataId.mk.inj heq)
  exact buffers.apart _ _ d d' _ _ _ _ hne hd hd' hstored.location hstored'.location rfl
    (hstored.takes (hstrided _ d hd)) (hstored'.takes (hstrided _ d' hd'))

/-- The constants of a blob are those of a graph: each element of each constant is where it should
be, no two constants have bytes in common, and all other bytes are zero. -/
structure ConstsIn (g : Graph) (b : Blob) : Prop where
  placed : ∀ id d l i, g.data? id = some d → d.location = some l → d.desc.Inside i → ∃ start, d.ElementAt i start
  element : ∀ id d content i start, g.data? id = some d → d.role = .const content → d.ElementAt i start →
    ∃ x, content[d.desc.linear i]? = some x ∧
      b.bytes.extract (b.header.constOffset.toNat + start)
        (b.header.constOffset.toNat + start + d.desc.dtype.size) = d.desc.dtype.encode x
  apart : ∀ id id' d d' i i' start start', id ≠ id' → g.data? id = some d → g.data? id' = some d' →
    d.usage = .const → d'.usage = .const → d.ElementAt i start → d'.ElementAt i' start' →
      start + d.desc.dtype.size ≤ start' ∨ start' + d'.desc.dtype.size ≤ start
  blank : ∀ k, k < b.header.constSize.toNat →
    (∀ id d i start, g.data? id = some d → d.usage = .const → d.ElementAt i start →
      ¬ (start ≤ k ∧ k < start + d.desc.dtype.size)) →
    b.bytes[b.header.constOffset.toNat + k]? = some 0

/-- The descriptors in the entry of a stage lead to the elements of what the stage reads. -/
def LeadsTo (g : Graph) (stage : StageId) (r : StageRecord) : Prop :=
  ∃ s buffers c, g.stage? stage = some s ∧
    Buffer.readMany (s.inputs.length + s.outputs.length) { bytes := r.data } = .ok (buffers, c) ∧
    ∀ slot id d l, g.AtSlot .input stage slot id → g.data? id = some d → d.location = some l →
      ∃ buffer, buffers[slot]? = some buffer ∧ buffer.area = l.area.code ∧ buffer.dtype = d.desc.dtype.code ∧
        ∀ i, (buffer.Holds i ↔ d.desc.Inside i) ∧
          (d.desc.Inside i → ∃ start, buffer.place i = .ok start ∧ d.ElementAt i start)

theorem Describes.leadsTo {stage : StageId} {r : StageRecord} (h : g.Describes stage r)
    (hstrided : ∀ id d, g.data? id = some d → d.Strided) : g.LeadsTo stage r := by
  obtain ⟨site, hsite, _⟩ := h.site
  have hs := (site_eq_ok.1 hsite).1
  have hlength : ∀ id d strides, g.data? id = some d → d.strides = some strides →
      strides.length = d.desc.rank := by
    intro id d strides hd hstrides
    obtain ⟨strides', hcomputed, hstrides'⟩ := hstrided id d hd
    rw [hstrides, Option.some.injEq] at hstrides'
    exact hstrides' ▸ Desc.length_strides hcomputed
  obtain ⟨buffers, c, hread, hshown⟩ := h.read_input hs hlength
  refine ⟨site.stage, buffers, c, hs, hread, fun slot id d l hslot hd hl => ?_⟩
  obtain ⟨buffer, hbuffer, hshows⟩ := hshown slot id d hslot hd
  obtain ⟨strides, _, hstrides⟩ := hstrided id d hd
  refine ⟨buffer, hbuffer, by rw [hshows.area, hl]; rfl, hshows.dtype, fun i => ⟨hshows.holds_iff, fun hi => ?_⟩⟩
  exact ⟨_, hshows.place_eq hl hstrides, l, strides, hl, hstrides, hi, rfl⟩

theorem Buffers.constsIn (buffers : g.Buffers b.header) (hstrided : ∀ id d, g.data? id = some d → d.Strided)
    (hb : g.blob = .ok b) : g.ConstsIn b := by
  obtain ⟨_, table, gap, extents, runs, _, _, _, hruns, _, _, laid⟩ := blob_eq_ok hb
  have hapart := buffers.runs_apart hstrided hruns
  have hsize : b.header.constSize.toNat = extents.blob := by rw [laid.constSize, Run.size_lay]
  have hsection : b.bytes.extract b.header.constOffset.toNat
      (b.header.constOffset.toNat + (Run.lay extents.blob runs).size) = Run.lay extents.blob runs := by
    rw [← laid.constSize]
    exact laid.constSection_eq
  -- A constant with a place is a run, and its elements are within.
  have stored : ∀ id d i start, g.data? id = some d → d.usage = .const → d.ElementAt i start →
      ∃ content strides r, r ∈ runs ∧ d.role = .const content ∧ d.strides = some strides ∧ d.StoredAs r ∧
        d.desc.Encoded content strides r.bytes ∧ d.desc.Inside i ∧
          start = r.offset + d.desc.order.place strides i ∧
        d.desc.order.place strides i + d.desc.dtype.size ≤ r.bytes.size := by
    intro id d i start hd husage helement
    obtain ⟨l, strides, hl, hstrides, hi, rfl⟩ := helement
    have harea := (buffers.area id d l hd hl).1
    rw [husage] at harea
    obtain ⟨area, offset⟩ := l
    obtain rfl : area = .blob := (Option.some.inj harea).symm
    obtain ⟨r, hr, hstored⟩ := constRuns_of_location hruns hd hl
    obtain ⟨content, strides', hrole, hstrides', e⟩ := hstored.encoded (hstrided id d hd)
    rw [hstrides, Option.some.injEq] at hstrides'
    subst hstrides'
    have hl' := hstored.location
    rw [hl, Option.some.injEq, Location.mk.injEq] at hl'
    exact ⟨content, strides, r, hr, hrole, hstrides, hstored, e, hi, by rw [hl'.2],
      buffers.elements id d strides _ i hd hstrides e.size hi⟩
  refine ⟨?_, ?_, ?_, ?_⟩
  · intro id d l i hd hl hi
    obtain ⟨strides, _, hstrides⟩ := hstrided id d hd
    exact ⟨_, l, strides, hl, hstrides, hi, rfl⟩
  · intro id d content i start hd hrole helement
    obtain ⟨content', strides, r, hr, hrole', hstrides, hstored, e, hi, rfl, hin⟩ :=
      stored id d i start hd (by rw [Data.usage, hrole]; rfl) helement
    rw [hrole, Role.const.injEq] at hrole'
    subst hrole'
    obtain ⟨x, hx, hbytes⟩ := e.element i hi
    refine ⟨x, hx, ?_⟩
    obtain ⟨_, _, _, _, hwithin⟩ := mem_constRuns hruns hr
    have hrun := Run.extract_lay hapart hr hwithin
    rw [Nat.add_assoc, Run.extract_extract hsection (by rw [Run.size_lay]; omega), Nat.add_assoc,
      Run.extract_extract hrun hin]
    exact hbytes
  · intro id id' d d' i i' start start' hne hd hd' husage husage' helement helement'
    obtain ⟨_, _, r, _, _, _, hstored, _, _, rfl, hin⟩ := stored id d i start hd husage helement
    obtain ⟨_, _, r', _, _, _, hstored', _, _, rfl, hin'⟩ := stored id' d' i' start' hd' husage' helement'
    have := buffers.apart _ _ d d' _ _ _ _ hne hd hd' hstored.location hstored'.location rfl
      (hstored.takes (hstrided id d hd)) (hstored'.takes (hstrided id' d' hd'))
    dsimp only at this
    omega
  · intro k hk hfree
    rw [laid.getElem?_const (by rw [Run.size_lay]; omega)]
    by_cases hcovered : ∃ r ∈ runs, r.Covers k
    · obtain ⟨r, hr, hcovers⟩ := hcovered
      obtain ⟨id, d, hd, hstored, _⟩ := mem_constRuns hruns hr
      obtain ⟨content, strides, hrole, hstrides, e⟩ := hstored.encoded (hstrided id d hd)
      rw [Run.getElem?_lay_of_covers hapart hr (by omega) hcovers]
      unfold Run.Covers at hcovers
      refine e.blank (k - r.offset) (by omega) fun i hi hmeets => ?_
      refine hfree id d i _ hd (by rw [Data.usage, hrole]; rfl)
        ⟨_, strides, hstored.location, hstrides, hi, rfl⟩ ?_
      dsimp only
      omega
    · exact Run.getElem?_lay_of_not_covers (by omega) fun r hr hcovers => hcovered ⟨r, hr, hcovers⟩

/-- What was constant when the layout was made final is found in the blob, from the entry of any
stage that reads it. -/
theorem constants_found_from_descriptors {g₀ g₁ : Graph} {config : Config} {c₁ c₂ : Bool}
    (hfree : ∀ id d, g₀.data? id = some d → d.location = none)
    (hlayout : Pass.finalizeLayout.run config g₀ = .ok (g₁, c₁))
    (hmemory : Pass.allocateMemory.run config g₁ = .ok (g, c₂)) (hb : g.blob = .ok b) :
    g.ConstsIn b ∧ ∃ order records, g.runOrder = .ok order ∧ b.stages = .ok records ∧
      List.Forall₂ (fun stage r => g.Describes stage r ∧ g.LeadsTo stage r) order records := by
  obtain ⟨hstrided₁, hfree₁⟩ := finalizeLayoutPass_strided hlayout
  obtain ⟨place, _, _, hplaced⟩ := allocateMemory_eq_ok hmemory
  have hstrided : ∀ id d, g.data? id = some d → d.Strided := by
    intro id d hd
    obtain ⟨d₁, hd₁, rfl⟩ := Allocation.data_eq (hfree₁ hfree) hplaced hd
    exact hstrided₁ id d₁ hd₁
  have buffers := Buffers.of_allocated hstrided₁ (hfree₁ hfree) hmemory hb
  obtain ⟨order, records, horder, hstages, hrecords⟩ := stages_of_blob hb
  refine ⟨buffers.constsIn hstrided hb, order, records, horder, hstages, hrecords.imp fun stage r h => ?_⟩
  exact ⟨h, h.leadsTo hstrided⟩

/-- Two constants that are copied: a column of three bytes, and a square of which memory holds the
columns. Strides and places are those of a finished graph, as far as they are given. -/
def twoConstants (strides : List Nat → Option (List Nat)) (place : Location → Option Location) : Graph :=
  let column : Desc := { dtype := .u8, dims := [3], order := .c, fits := ⟨.c, rfl, Order.c.sameDims_self⟩ }
  let square : Desc := { dtype := .u8, dims := [2, 2], order := { memory := [.n, .c] }, fits := ⟨.nc, rfl, rfl⟩ }
  let one : F32 := ⟨0x3f800000⟩
  let two : F32 := ⟨0x40000000⟩
  let three : F32 := ⟨0x40400000⟩
  let four : F32 := ⟨0x40800000⟩
  { name := "two constants"
    datas := #[
      { name := "column", desc := column, role := .const #[one, two, three], consumers := [⟨0⟩]
        strides := strides [1], location := place ⟨.blob, 0⟩ },
      { name := "square", desc := square, role := .const #[one, two, three, four], consumers := [⟨2⟩]
        strides := strides [1, 2], location := place ⟨.blob, 64⟩ },
      { name := "first", desc := column, role := .output, producer := some ⟨1⟩
        strides := strides [1], location := place ⟨.output, 0⟩ },
      { name := "second", desc := square, role := .output, producer := some ⟨3⟩
        strides := strides [1, 2], location := place ⟨.output, 64⟩ }]
    stages := #[some { name := "copy column", kind := .copy, inputs := [⟨0⟩], outputs := [⟨1⟩] },
      some { name := "copy square", kind := .copy, inputs := [⟨2⟩], outputs := [⟨3⟩] }]
    edges := #[⟨.input, ⟨0⟩, ⟨0⟩, 0⟩, ⟨.output, ⟨2⟩, ⟨0⟩, 0⟩, ⟨.input, ⟨1⟩, ⟨1⟩, 0⟩, ⟨.output, ⟨3⟩, ⟨1⟩, 0⟩] }

/-- Both constants are found from the entries of the copies; the square lies column by column, at
the next multiple of 64. -/
theorem twoConstants_found :
    ∃ g₁ c₁ g c₂ b, Pass.finalizeLayout.run {} (twoConstants (fun _ => none) fun _ => none) = .ok (g₁, c₁) ∧
      Pass.allocateMemory.run {} g₁ = .ok (g, c₂) ∧ g.blob = .ok b ∧
      (g.ConstsIn b ∧ ∃ order records, g.runOrder = .ok order ∧ b.stages = .ok records ∧
        List.Forall₂ (fun stage r => g.Describes stage r ∧ g.LeadsTo stage r) order records) ∧
      b.constSection.extract 0 4 = #[1, 2, 3, 0] ∧ b.constSection.extract 63 68 = #[0, 1, 3, 2, 4] := by
  have hlayout : Pass.finalizeLayout.run {} (twoConstants (fun _ => none) fun _ => none) =
      .ok (twoConstants some fun _ => none, true) := by decide +kernel
  have hmemory : Pass.allocateMemory.run {} (twoConstants some fun _ => none) =
      .ok (twoConstants some some, true) := by decide +kernel
  have horder : (twoConstants some some).runOrder = .ok [⟨1⟩, ⟨0⟩] := by decide +kernel
  have hwritten : (do
      let b ← (twoConstants some some).blob
      return (b.constSection.extract 0 4, b.constSection.extract 63 68)) =
      Except.ok (#[1, 2, 3, 0], #[0, 1, 3, 2, 4]) := by
    rw [blob, horder]
    decide +kernel
  simp only [Outcome.bind_eq_ok, Outcome.pure_eq_ok, Prod.mk.injEq] at hwritten
  obtain ⟨b, hb, hcolumn, hsquare⟩ := hwritten
  have hfree : (twoConstants (fun _ => none) fun _ => none).Unplaced := by
    intro id d hd
    have hmem := Array.mem_toList_iff.2 (Array.mem_of_getElem? hd)
    simp only [twoConstants, List.mem_cons, List.not_mem_nil, or_false] at hmem
    rcases hmem with rfl | rfl | rfl | rfl <;> rfl
  exact ⟨_, _, _, _, b, hlayout, hmemory, hb, constants_found_from_descriptors hfree hlayout hmemory hb,
    hcolumn, hsquare⟩

end Graph

end NetLower
