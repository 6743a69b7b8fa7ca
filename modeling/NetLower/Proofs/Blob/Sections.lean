/-
Reading data sections to the end.  Once the layout is final, a tensor has as many strides as
its descriptor has sizes, and both are as many as the rank that is written before them.  So
a reader who knows the number of slots, and whether the stage works with weights, reads the
section of any stage from its first byte to its last and finds all that was written.
-/
import NetLower.Proofs.Blob.Descriptors
import NetLower.Proofs.Blob.Reader
import NetLower.Proofs.Pass.Memory

namespace NetLower

namespace Cursor

theorem readInt32_ahead {c : Cursor} {v : Int32} {rest : List UInt8}
    (h : c.Ahead ((Bytes.ofInt32 v).toList ++ rest)) : ∃ c', c.readInt32 = .ok (v, c') ∧ c'.Ahead rest := by
  obtain ⟨c', hread, hrest⟩ := readUInt32_ahead h
  exact ⟨c', Outcome.bind_eq_ok.2 ⟨_, hread, rfl⟩, hrest⟩

end Cursor

/-! ## Sections -/

/-- Whether a stage works with weights. -/
def Site.weighted (s : Site) : Bool :=
  match s.kind, s.hardwareOp with
  | .hardware, .ok op => op.isWeightable
  | kind, _ => kind.isWeightable

/-- A data section: the buffers of the inputs and then of the outputs, and of a stage with weights
the group size and whether there are biases. -/
structure DataSection where
  buffers : List Buffer
  weights : Option (Int32 × UInt32)

namespace DataSection

/-- Read the section of a stage with a number of slots. -/
def read (slots : Nat) (weighted : Bool) (c : Cursor) : Outcome (DataSection × Cursor) := do
  let (buffers, c) ← Buffer.readMany slots c
  if weighted then
    let (group, c) ← c.readInt32
    let (biased, c) ← c.readUInt32
    return ({ buffers, weights := some (group, biased) }, c)
  else return ({ buffers, weights := none }, c)

/-- The section is that of a stage in its place: each buffer is that of the tensor at its slot, and
has the code of its order. -/
structure Tells (x : DataSection) (s : Site) : Prop where
  buffers : List.Forall₂ (fun d b => b.Shows d ∧ b.order.toNat = d.desc.order.code) (s.inputs ++ s.outputs)
    x.buffers
  plain : s.weighted = false → x.weights = none
  weights : s.weighted = true → ∃ group biases, s.attrs.getIntOr .groupSize 1 = .ok group ∧
    s.input 2 = .ok biases ∧ x.weights = some (group, if biases.usage = .const then 1 else 0)

end DataSection

namespace Site

variable {s : Site} {bytes : Bytes}

/-- Group size and the flag for biases follow the descriptors. -/
theorem weightableBytes_parts (h : s.weightableBytes = .ok bytes) :
    ∃ slots group biases, s.slotBytes = .ok slots ∧ s.attrs.getIntOr .groupSize 1 = .ok group ∧
      s.input 2 = .ok biases ∧
      bytes = slots ++ (Bytes.ofInt32 group ++ Bytes.ofUInt32 (if biases.usage = .const then 1 else 0)) := by
  simp only [weightableBytes, Outcome.bind_eq_ok, Outcome.pure_eq_ok] at h
  obtain ⟨slots, hslots, group, hgroup, biases, hbiases, rfl⟩ := h
  exact ⟨slots, group, biases, hslots, hgroup, hbiases, Array.append_assoc⟩

/-- The section of a stage with weights is longer than those of the others. -/
theorem dataBytes_cases (h : s.kind.family.dataBytes s = .ok bytes) :
    s.weighted = true ∧ s.weightableBytes = .ok bytes ∨ s.weighted = false ∧ s.slotBytes = .ok bytes := by
  unfold weighted
  cases hkind : s.kind <;> rw [hkind] at h
  case hardware =>
    simp only [StageKind.family, StageFamily.dataBytes, Outcome.bind_eq_ok] at h
    obtain ⟨op, hop, h⟩ := h
    rw [hop]
    split at h
    next hweights => exact .inl ⟨hweights, h⟩
    next hweights => exact .inr ⟨by simpa using hweights, h⟩
  case convolution | deconvolution | fullyConnected => exact .inl ⟨rfl, h⟩
  case maxPool | avgPool | power | permute | copy | split | concat => exact .inr ⟨rfl, h⟩
  all_goals cases h

/-- A section is read as it was written, to the end. -/
theorem read_dataSection (h : s.kind.family.dataBytes s = .ok bytes)
    (hlength : ∀ d ∈ s.inputs ++ s.outputs, ∀ strides, d.strides = some strides → strides.length = d.desc.rank) :
    ∃ x c, DataSection.read (s.inputs ++ s.outputs).length s.weighted { bytes } = .ok (x, c) ∧ c.remaining = 0 ∧
      x.Tells s := by
  have coded {d : Data} {b : Buffer} (hshows : b.Shows d) : b.Shows d ∧ b.order.toNat = d.desc.order.code :=
    ⟨hshows, (Order.code_of_ofCode hshows.order).symm⟩
  rcases dataBytes_cases h with ⟨hweighted, h⟩ | ⟨hweighted, h⟩
  · obtain ⟨slots, group, biases, hslots, hgroup, hbiases, rfl⟩ := weightableBytes_parts h
    have hahead := Cursor.ahead_start
      (slots ++ (Bytes.ofInt32 group ++ Bytes.ofUInt32 (if biases.usage = .const then 1 else 0)))
    rw [Array.toList_append, Array.toList_append, ← List.append_nil (Bytes.ofUInt32 _).toList] at hahead
    obtain ⟨buffers, c₁, hbuffers, hc₁, hshown⟩ := read_slots hslots hlength hahead
    obtain ⟨c₂, hgroupRead, hc₂⟩ := Cursor.readInt32_ahead hc₁
    obtain ⟨c₃, hbiasedRead, hc₃⟩ := Cursor.readUInt32_ahead hc₂
    refine ⟨⟨buffers, some (group, if biases.usage = .const then 1 else 0)⟩, c₃, ?_, hc₃.remaining_eq,
      hshown.imp fun _ _ => coded, by simp [hweighted], fun _ => ⟨group, biases, hgroup, hbiases, rfl⟩⟩
    rw [hweighted]
    exact Outcome.bind_eq_ok.2 ⟨_, hbuffers,
      Outcome.bind_eq_ok.2 ⟨_, hgroupRead, Outcome.bind_eq_ok.2 ⟨_, hbiasedRead, rfl⟩⟩⟩
  · have hahead := Cursor.ahead_start bytes
    rw [← List.append_nil bytes.toList] at hahead
    obtain ⟨buffers, c₁, hbuffers, hc₁, hshown⟩ := read_slots h hlength hahead
    refine ⟨⟨buffers, none⟩, c₁, ?_, hc₁.remaining_eq, hshown.imp fun _ _ => coded, fun _ => rfl,
      by simp [hweighted]⟩
    rw [hweighted]
    exact Outcome.bind_eq_ok.2 ⟨_, hbuffers, rfl⟩

end Site

namespace Graph

variable {g : Graph}

/-- The layout is final. Since then tensors may have been given places, or lost them. -/
inductive LaidOut : Graph → Prop where
  | layout {config : Config} {g g' : Graph} {changed : Bool} :
      Pass.finalizeLayout.run config g = .ok (g', changed) → LaidOut g'
  | place {g : Graph} {id : DataId} (location : Option Location) : LaidOut g →
      LaidOut (g.modifyData id fun d => { d with location })

namespace LaidOut

/-- Tensors keep the strides that the layout gave them. -/
theorem strided (h : g.LaidOut) : ∀ d node, g.data? d = some node → node.Strided := by
  induction h with
  | layout h => exact (finalizeLayoutPass_strided h).1
  | place location _ ih =>
    intro d node hd
    rw [data?_modifyData] at hd
    split at hd
    · obtain ⟨old, hold, rfl⟩ := Option.map_eq_some_iff.1 hd
      exact ih d old hold
    · exact ih d node hd

theorem allocateMemory {config : Config} {g' : Graph} {changed : Bool} (h : g.LaidOut)
    (hrun : Pass.allocateMemory.run config g = .ok (g', changed)) : g'.LaidOut := by
  simp only [Pass.allocateMemory, Outcome.bind_eq_ok, Outcome.pure_eq_ok, Prod.mk.injEq] at hrun
  obtain ⟨plan, -, rfl, -⟩ := hrun
  induction plan generalizing g with
  | nil => exact h
  | cons entry plan ih => exact ih (h.place (some entry.2))

/-- The data section that is written for a stage of a graph with its final layout is read back: with
the number of slots, and whether the stage has weights, reading does not fail, leaves no byte, and
gives for each slot the place, the type, the order, the sizes and the strides of the tensor at the
slot, and for a stage with weights the group size and whether there are biases. -/
theorem dataSection_read_back (h : g.LaidOut) {id : StageId} {site : Site} {bytes : Bytes}
    (hsite : g.site id = .ok site) (hbytes : site.kind.family.dataBytes site = .ok bytes) :
    ∃ x c, DataSection.read (site.inputs ++ site.outputs).length site.weighted { bytes } = .ok (x, c) ∧
      c.remaining = 0 ∧ x.Tells site := by
  refine Site.read_dataSection hbytes fun node hnode strides hstrides => ?_
  obtain ⟨d, hd⟩ := data_of_site hsite hnode
  obtain ⟨computed, hcomputed, hstored⟩ := h.strided d node hd
  rw [hstrides, Option.some.injEq] at hstored
  exact hstored ▸ Desc.length_strides hcomputed

end LaidOut

/-- A convolution in groups of two with biases; weights and biases are constants. -/
def biased (order : Order) (fits : Order.nc.sameDims order = true) (strides : List Nat → Option (List Nat))
    (place : Location → Option Location) : Graph :=
  let column : Desc := { dtype := .f16, dims := [1, 2], order := .nc, fits := ⟨.nc, rfl, rfl⟩ }
  let square : Desc := { dtype := .f16, dims := [2, 2], order, fits := ⟨.nc, rfl, fits⟩ }
  let biases : Desc := { dtype := .f16, dims := [2], order := .c, fits := ⟨.c, rfl, rfl⟩ }
  { name := "biased"
    datas := #[
      { name := "x", desc := column, role := .input, consumers := [⟨0⟩]
        strides := strides [2, 4], location := place ⟨.input, 0⟩ },
      { name := "weights", desc := square, role := .const #[.one, .one, .one, .one], consumers := [⟨1⟩]
        strides := strides [2, 4], location := place ⟨.blob, 0⟩ },
      { name := "biases", desc := biases, role := .const #[.one, .one], consumers := [⟨2⟩]
        strides := strides [2], location := place ⟨.blob, 64⟩ },
      { name := "y", desc := column, role := .output, producer := some ⟨3⟩
        strides := strides [2, 4], location := place ⟨.output, 0⟩ }]
    stages := #[some { name := "conv", kind := .convolution, attrs := ⟨[⟨.groupSize, .int 2, rfl⟩]⟩
                       inputs := [⟨0⟩, ⟨1⟩, ⟨2⟩], outputs := [⟨3⟩] }]
    edges := #[⟨.input, ⟨0⟩, ⟨0⟩, 0⟩, ⟨.input, ⟨1⟩, ⟨0⟩, 1⟩, ⟨.input, ⟨2⟩, ⟨0⟩, 2⟩, ⟨.output, ⟨3⟩, ⟨0⟩, 0⟩] }

/-- The section of the convolution has four descriptors; behind them stand the group size and the
flag. -/
theorem biased_read_back :
    ∃ (g : Graph) (site : Site) (bytes : Bytes) (x : DataSection) (c : Cursor), g.LaidOut ∧ g.site ⟨0⟩ = .ok site ∧
      site.kind.family.dataBytes site = .ok bytes ∧ bytes.size = 3 * 36 + 28 + 8 ∧
      DataSection.read 4 true { bytes } = .ok (x, c) ∧ c.remaining = 0 ∧ x.Tells site ∧
        x.weights = some (2, 1) := by
  have hlayout : Pass.finalizeLayout.run {} (biased { memory := [.n, .c] } rfl (fun _ => none) fun _ => none) =
      .ok (biased .nc rfl some fun _ => none, true) := by decide +kernel
  have hmemory : Pass.allocateMemory.run {} (biased .nc rfl some fun _ => none) =
      .ok (biased .nc rfl some some, true) := by decide +kernel
  have hfacts : (do
      let site ← (biased .nc rfl some some).site ⟨0⟩
      let bytes ← site.kind.family.dataBytes site
      let group ← site.attrs.getIntOr .groupSize 1
      let biases ← site.input 2
      return (bytes.size, (site.inputs ++ site.outputs).length, site.weighted, group, biases.usage)) =
      Except.ok (144, 4, true, 2, .const) := by decide +kernel
  simp only [Outcome.bind_eq_ok, Outcome.pure_eq_ok, Prod.mk.injEq] at hfacts
  obtain ⟨site, hsite, bytes, hbytes, _, hgroup, _, hbiases, hsize, hslots, hweighted, rfl, husage⟩ := hfacts
  have hlaid := (LaidOut.layout hlayout).allocateMemory hmemory
  obtain ⟨x, c, hread, hend, htells⟩ := hlaid.dataSection_read_back hsite hbytes
  obtain ⟨group, biases, hgroup', hbiases', hweights⟩ := htells.weights hweighted
  cases hgroup.symm.trans hgroup'
  cases hbiases.symm.trans hbiases'
  rw [hslots, hweighted] at hread
  exact ⟨_, site, bytes, x, c, hlaid, hsite, hbytes, hsize, hread, hend, htells, by rw [hweights, if_pos husage]⟩

end Graph

end NetLower
