/-
Faults of the writer.  Stages that fit and are no stubs have their entries; entries are short,
as the lengths of their parts are 32-bit words; and the constants, like all tensors, end where
allocation put them.  So only a graph of very many elements or stages is too large to write.
-/
import NetLower.Proofs.Blob.Constants
import NetLower.Proofs.Pass.Room
import NetLower.Proofs.Stage.Faults

namespace NetLower

open Outcome

variable {P : Fault → Prop}

/-! ## Sections of a stage -/

namespace Bytes

@[simp] theorem faultsOnly_ofSize (size : Nat) : FaultsOnly P (ofSize size) := by simp [ofSize]

@[simp] theorem faultsOnly_ofSizes (sizes : List Nat) : FaultsOnly P (ofSizes sizes) := by simp [ofSizes]

end Bytes

@[simp] theorem Data.faultsOnly_descriptor (d : Data) : FaultsOnly P d.descriptor := by
  unfold descriptor
  split <;> simp

namespace Site

variable (s : Site)

@[simp] theorem faultsOnly_slotBytes : FaultsOnly P s.slotBytes := by simp [slotBytes]

@[simp] theorem faultsOnly_weightableBytes : FaultsOnly P s.weightableBytes := by simp [weightableBytes]

@[simp] theorem faultsOnly_sliceBytes (axis : Dim) (offsets : List Nat) :
    FaultsOnly P (sliceBytes axis offsets) := by
  simp [sliceBytes]

@[simp] theorem faultsOnly_axis : FaultsOnly P s.axis := by
  simp only [axis, failsOnly_bind, Attrs.faultsOnly_getInt, failsOnly_require, Error.FaultIn, implies_true,
    true_and]
  intro digit _ _ _
  split <;> simp

@[simp] theorem faultsOnly_permutation : FaultsOnly P s.permutation := by
  simp only [permutation, failsOnly_bind, faultsOnly_input, faultsOnly_output, true_and]
  intro x _ y _
  refine FailsOnly.mapM fun dim _ => ?_
  split <;> simp

variable {s}

theorem faultsOnly_dataBytes (hstub : s.kind.isStub = false) : FaultsOnly P (s.kind.family.dataBytes s) := by
  cases hf : s.kind.family
  case stub => exact absurd hf (StageKind.family_ne_stub hstub)
  all_goals simp [StageFamily.dataBytes]

/-- The parameters of a stage that fits tell sizes of its tensors. -/
theorem Fit.faultsOnly_params (h : s.Fit) (hstub : s.kind.isStub = false)
    (hlarge : ∀ kind, ∀ d ∈ s.slots kind, Size.range ≤ d.desc.volume → P .multiply ∧ P .add) :
    FaultsOnly P (s.kind.family.params s) := by
  have hdim : ∀ kind, ∀ d ∈ s.slots kind, ∀ x size, d.desc.dim? x = some size → Size.range ≤ size → P .add :=
    fun kind d hd x size hsize hrange => (hlarge kind d hd (Nat.le_trans hrange (Desc.dim?_le_volume hsize))).2
  obtain ⟨_, hfit⟩ := h
  cases hf : s.kind.family <;> rw [hf] at hfit <;> simp only at hfit
  case stub => exact absurd hf (StageKind.family_ne_stub hstub)
  case fullyConnected =>
    simp only [StageFamily.params, failsOnly_bind, faultsOnly_input, faultsOnly_output, Bytes.faultsOnly_ofSize,
      failsOnly_pure, implies_true, and_true, true_and, input_eq_ok]
    intro x hx y _
    exact Desc.faultsOnly_total fun hrange => (hlarge .input x (List.mem_of_getElem? hx) hrange).1
  case split =>
    have hoffsets : FaultsOnly P s.splitOffsets := Cuts.splitOffsets_run hfit hdim
    simp [StageFamily.params, hoffsets]
  case concat =>
    have hoffsets : FaultsOnly P s.concatOffsets := Gathers.concatOffsets_run hfit hdim
    simp [StageFamily.params, hoffsets]
  all_goals simp [StageFamily.params]

end Site

/-! ## The stage table -/

/-- The lengths of both parts are words, so an entry is short. -/
theorem StageRecord.size_bytes_le {r : StageRecord} {bytes : Bytes} (h : r.bytes = .ok bytes) :
    bytes.size ≤ 2 ^ 34 := by
  simp only [StageRecord.bytes, Outcome.bind_eq_ok, Outcome.pure_eq_ok] at h
  obtain ⟨_, hparams, _, hdata, rfl⟩ := h
  obtain ⟨w, rfl, hw⟩ := Bytes.ofSize_eq_ok hparams
  obtain ⟨w', rfl, hw'⟩ := Bytes.ofSize_eq_ok hdata
  have hlt := w.toNat_lt
  have hlt' := w'.toNat_lt
  have hword (v : UInt32) : (Bytes.ofUInt32 v).size = 4 := rfl
  simp only [Array.size_append, hword]
  omega

@[simp] theorem StageRecord.faultsOnly_bytes (r : StageRecord) :
    FaultsOnly P r.bytes := by simp [StageRecord.bytes]

namespace Graph

variable {g : Graph} {size : Nat}

theorem size_tableBytes_le {order : List StageId} {table : Bytes} (h : g.tableBytes order = .ok table) :
    table.size ≤ order.length * 2 ^ 34 := by
  obtain ⟨records, chunks, hrecords, hchunks, htable⟩ := tableBytes_eq_ok h
  rw [← Array.length_toList, htable, hrecords.length_eq]
  clear hrecords htable
  induction hchunks with
  | nil => simp
  | cons hbytes _ ih =>
    have hle := StageRecord.size_bytes_le hbytes
    rw [List.flatMap_cons, List.length_append, Array.length_toList, List.length_cons]
    omega

/-- Stages that are done have their entries. -/
theorem Fits.faultsOnly_stageRecord (f : g.Fits Site.Done) (wf : g.WellFormed) (id : StageId)
    (h : Size.range ≤ g.volume → P .multiply ∧ P .add) : FaultsOnly P (g.stageRecord id) := by
  simp only [stageRecord, failsOnly_bind, faultsOnly_site, true_and]
  intro site hsite
  have hdone := f.all id site hsite
  have hstub := hdone.stub
  split
  next hcode => simp [StageKind.isStub, hcode] at hstub
  · simp only [failsOnly_bind, Site.faultsOnly_dataBytes hstub, failsOnly_pure, implies_true, and_true]
    refine hdone.fit.faultsOnly_params hstub fun kind d hd hrange => h ?_
    obtain ⟨k, hk⟩ := List.mem_iff_getElem?.1 hd
    obtain ⟨_, x, _, _, hx⟩ := wf.edge_of_slot hsite hk
    exact Nat.le_trans hrange (volume_le hx)

/-! ## Constants -/

/-- Every tensor that has a place ends within the room of all tensors. -/
def Contained (g : Graph) : Prop :=
  ∀ id d l size, g.data? id = some d → d.location = some l → d.Takes size → l.offset + size ≤ 64 * g.volume

theorem data?_of_mem {d : Data} (h : d ∈ g.datas.toList) : ∃ id, g.data? id = some d := by
  obtain ⟨k, hk⟩ := List.mem_iff_getElem?.1 h
  exact ⟨⟨k⟩, Array.getElem?_toList.symm.trans hk⟩

theorem faultsOnly_dataEnd? {id : DataId} {d : Data} (hd : g.data? id = some d) (hstrided : d.Strided)
    (hends : g.Contained) (h : Size.range ≤ 64 * g.volume → P .multiply ∧ P .add) : FaultsOnly P (dataEnd? d) := by
  obtain ⟨strides, hcomputed, hstrides⟩ := hstrided
  unfold dataEnd?
  split
  next l strides' hl hstrides' =>
    rw [hstrides, Option.some.injEq] at hstrides'
    subst hstrides'
    have hvolume := volume_le hd
    simp only [failsOnly_bind, Size.faultsOnly_add, failsOnly_pure, implies_true, and_true]
    refine ⟨(Desc.byteSize_succeeds hcomputed).failsOnly, fun size hsize hlarge => (h ?_).2⟩
    exact Nat.le_trans hlarge (hends id d l size hd hl ⟨strides, hstrides, hsize⟩)
  · simp

theorem faultsOnly_extents (hstrided : ∀ id d, g.data? id = some d → d.Strided) (hends : g.Contained)
    (h : Size.range ≤ 64 * g.volume → P .multiply ∧ P .add) : FaultsOnly P g.extents := by
  rw [extents, ← Array.foldlM_toList]
  refine FailsOnly.foldlM_of_forall fun sizes d hd => ?_
  obtain ⟨id, hid⟩ := data?_of_mem hd
  refine (faultsOnly_dataEnd? hid (hstrided id d hid) hends h).bind fun stop _ => ?_
  split <;> simp

theorem faultsOnly_constRun {id : DataId} {d : Data} (hd : g.data? id = some d) (hstrided : d.Strided)
    (hends : g.Contained) (h : Size.range ≤ 64 * g.volume → P .multiply ∧ P .add ∧ P .capacity) :
    FaultsOnly P (constRun size d) := by
  unfold constRun
  split
  next offset hl =>
    split
    · simp
    next content hcontent =>
      have hvolume := volume_le hd
      obtain ⟨strides, hcomputed, hstrides⟩ := hstrided
      rw [hstrides, Option.getD_some]
      have hencode : FaultsOnly P (d.desc.encode content strides) := by
        refine Desc.faultsOnly_encode hcomputed fun hlarge => ?_
        obtain ⟨hmul, _, hcap⟩ := h (by omega)
        exact ⟨hmul, hcap⟩
      simp only [Run.checkWithin, failsOnly_bind, Size.faultsOnly_add, failsOnly_require, failsOnly_pure,
        Error.FaultIn, implies_true, and_true]
      refine ⟨hencode, fun bytes hbytes hlarge => (h ?_).2.1⟩
      have htakes : d.Takes bytes.size := ⟨strides, hstrides, (Desc.encode_encoded hcomputed hbytes).size⟩
      exact Nat.le_trans hlarge (hends id d _ _ hd hl htakes)
  · simp

/-! ## The blob -/

@[simp] theorem faultsOnly_headerSize (what : String) (size : Nat) : FaultsOnly P (headerSize what size) := by
  simp [headerSize]

/-- A finished graph is written, unless it has too many elements or too many stages. -/
theorem Fits.faultsOnly_blob (f : g.Fits Site.Done) (wf : g.WellFormed)
    (hstrided : ∀ id d, g.data? id = some d → d.Strided)
    (hends : g.Contained) (h : Size.range ≤ 128 * g.volume → P .multiply ∧ P .add ∧ P .capacity)
    (hstages : 2 ^ 30 ≤ g.stageCount → P .multiply) : FaultsOnly P g.blob := by
  have hroom : Size.range ≤ 64 * g.volume → P .multiply ∧ P .add ∧ P .capacity := fun hlarge => h (by omega)
  have htwo (hlarge : Size.range ≤ 64 * g.volume) : P .multiply ∧ P .add := ⟨(hroom hlarge).1, (hroom hlarge).2.1⟩
  have hentries (id : StageId) : FaultsOnly P (g.stageRecord id) :=
    f.faultsOnly_stageRecord wf id fun hlarge => htwo (by omega)
  simp only [blob, failsOnly_bind, faultsOnly_runOrder, faultsOnly_headerSize, failsOnly_pure, implies_true,
    and_true, true_and]
  intro order horder
  refine ⟨by simp [tableBytes, hentries], fun table htable =>
    ⟨faultsOnly_extents hstrided hends htwo, fun extents hextents => ?_⟩⟩
  have hblob : extents.get .blob ≤ 64 * g.volume :=
    extents_le hextents fun id d l size hd hl _ hsize => hends id d l size hd hl hsize
  refine ⟨?_, fun runs _ => Size.faultsOnly_alignUp.2 fun hlarge => hstages ?_⟩
  · simp only [constRuns, failsOnly_bind, Bytes.faultsOnly_checkSize, failsOnly_pure, implies_true, and_true]
    refine ⟨fun hlarge => (h (by simp only [AreaSizes.get] at hblob; omega)).2.2, fun size _ =>
      FailsOnly.mapM fun d hd => ?_⟩
    obtain ⟨id, hid⟩ := data?_of_mem hd
    exact faultsOnly_constRun hid (hstrided id d hid) hends hroom
  · have hcount : order.length = g.stageCount := by
      rw [(runOrder_perm horder).length_eq, liveIds, List.length_map, stageCount]
    have htable := size_tableBytes_le htable
    by_contra hfew
    have hle : Size.ceilDiv (Header.size + table.size) dataAlignment * dataAlignment ≤ 64 * (2 ^ 58 - 1) :=
      Size.ceilDiv_mul_le (by decide) (Nat.dvd_mul_right 64 _) (by simp only [Header.size]; omega)
    simp only [Size.range, UInt64.size] at hlarge
    omega

end Graph

end NetLower
