/-
Reading buffer descriptors.  The data section of a stage begins with the descriptors of its
buffers, inputs first.  A reader who knows the number of slots reads them back, and finds in
each all that it takes to reach the elements of the tensor: the place of the buffer, the order
in which memory runs, and the sizes and strides.
-/
import NetLower.Proofs.Blob
import NetLower.Proofs.Graph.Sites
import NetLower.Proofs.Tensor.OrderCode

namespace NetLower

/-! ## Words and chunks -/

theorem Bytes.foldlM_append_eq_ok {f : α → Outcome Bytes} : ∀ {items : List α} {acc bytes : Bytes},
    items.foldlM (fun bytes a => do return bytes ++ (← f a)) acc = Except.ok bytes →
    ∃ chunks, List.Forall₂ (fun a chunk => f a = .ok chunk) items chunks ∧
      bytes.toList = acc.toList ++ chunks.flatMap Array.toList
  | [], acc, bytes, h => by
    cases h
    exact ⟨[], .nil, by simp⟩
  | a :: items, acc, bytes, h => by
    simp only [List.foldlM_cons, Outcome.bind_eq_ok, Outcome.pure_eq_ok] at h
    obtain ⟨_, ⟨chunk, hchunk, rfl⟩, h⟩ := h
    obtain ⟨chunks, hchunks, hbytes⟩ := foldlM_append_eq_ok h
    exact ⟨chunk :: chunks, .cons hchunk hchunks, by simp [hbytes]⟩

/-- Sizes are written as words. -/
theorem Bytes.ofSizes_eq_ok {sizes : List Nat} {bytes : Bytes} (h : ofSizes sizes = .ok bytes) :
    ∃ words : List UInt32, words.map UInt32.toNat = sizes ∧
      bytes.toList = words.flatMap fun w => (ofUInt32 w).toList := by
  obtain ⟨chunks, hchunks, hbytes⟩ := foldlM_append_eq_ok h
  rw [hbytes]
  clear hbytes h
  induction hchunks with
  | nil => exact ⟨[], rfl, rfl⟩
  | cons hchunk _ ih =>
    obtain ⟨w, rfl, hw⟩ := ofSize_eq_ok hchunk
    obtain ⟨words, hwords, hbytes⟩ := ih
    exact ⟨w :: words, by simp [hw, hwords], by simpa using hbytes⟩

namespace Cursor

/-- The next `count` words. -/
def readWords : Nat → Cursor → Outcome (List UInt32 × Cursor)
  | 0, c => .ok ([], c)
  | count + 1, c => do
    let (word, c) ← c.readUInt32
    let (words, c) ← readWords count c
    return (word :: words, c)

theorem readWords_ahead {words : List UInt32} {c : Cursor} {rest : List UInt8}
    (h : c.Ahead ((words.flatMap fun w => (Bytes.ofUInt32 w).toList) ++ rest)) :
    ∃ c', readWords words.length c = .ok (words, c') ∧ c'.Ahead rest := by
  induction words generalizing c with
  | nil => exact ⟨c, rfl, h⟩
  | cons w words ih =>
    rw [List.flatMap_cons, List.append_assoc] at h
    obtain ⟨c₁, hword, h⟩ := readUInt32_ahead h
    obtain ⟨c₂, hwords, h⟩ := ih h
    exact ⟨c₂, Outcome.bind_eq_ok.2 ⟨_, hword, Outcome.bind_eq_ok.2 ⟨_, hwords, rfl⟩⟩, h⟩

/-- Bytes that are words and nothing else are read to the end. -/
theorem readWords_all {words : List UInt32} {bytes : Bytes}
    (h : bytes.toList = words.flatMap fun w => (Bytes.ofUInt32 w).toList) :
    ∃ c, readWords words.length { bytes } = .ok (words, c) ∧ c.remaining = 0 := by
  have hahead : Ahead { bytes } ((words.flatMap fun w => (Bytes.ofUInt32 w).toList) ++ []) :=
    ⟨[], by simp [h], rfl⟩
  obtain ⟨c, hread, hend⟩ := readWords_ahead hahead
  exact ⟨c, hread, hend.remaining_eq⟩

end Cursor

/-! ## Descriptors -/

/-- A buffer as its descriptor tells it; sizes and strides are innermost first. -/
structure Buffer where
  area : UInt32
  offset : UInt32
  dtype : UInt32
  order : UInt32
  sizes : List UInt32
  strides : List UInt32

namespace Buffer

/-- Read one descriptor. -/
def read (c : Cursor) : Outcome (Buffer × Cursor) := do
  let (area, c) ← c.readUInt32
  let (offset, c) ← c.readUInt32
  let (dtype, c) ← c.readUInt32
  let (order, c) ← c.readUInt32
  let (rank, c) ← c.readUInt32
  let (sizes, c) ← c.readWords rank.toNat
  let (strides, c) ← c.readWords rank.toNat
  return ({ area, offset, dtype, order, sizes, strides }, c)

/-- Read a number of descriptors. -/
def readMany : Nat → Cursor → Outcome (List Buffer × Cursor)
  | 0, c => .ok ([], c)
  | count + 1, c => do
    let (buffer, c) ← read c
    let (buffers, c) ← readMany count c
    return (buffer :: buffers, c)

/-- The byte at which the element of an index begins, in the area of the buffer. -/
def place (b : Buffer) (i : Dim → Nat) : Outcome Nat := do
  let order ← Order.ofCode b.order.toNat
  return b.offset.toNat + order.place (b.strides.map UInt32.toNat) i

/-- The index lies within the sizes of the buffer. -/
def Holds (b : Buffer) (i : Dim → Nat) : Prop :=
  ∃ order, Order.ofCode b.order.toNat = .ok order ∧
    List.Forall₂ (fun x size => i x < size.toNat) order.memory b.sizes

/-- The buffer is that of a tensor. -/
structure Shows (b : Buffer) (d : Data) : Prop where
  area : b.area = (d.location.map fun l => l.area.code).getD 0
  offset : b.offset.toNat = (d.location.map Location.offset).getD 0
  dtype : b.dtype = d.desc.dtype.code
  order : Order.ofCode b.order.toNat = .ok d.desc.order
  sizes : b.sizes.map UInt32.toNat = d.desc.memorySizes
  strides : d.strides = some (b.strides.map UInt32.toNat)

variable {b : Buffer} {d : Data} {i : Dim → Nat}

theorem Shows.place_eq (h : b.Shows d) {l : Location} {strides : List Nat} (hl : d.location = some l)
    (hs : d.strides = some strides) : b.place i = .ok (l.offset + d.desc.order.place strides i) := by
  rw [h.strides, Option.some.injEq] at hs
  refine Outcome.bind_eq_ok.2 ⟨_, h.order, ?_⟩
  rw [Outcome.pure_eq_ok, h.offset, hl, hs]
  rfl

theorem Shows.holds_iff (h : b.Shows d) : b.Holds i ↔ d.desc.Inside i := by
  have hmemory : List.Forall₂ (fun x size => i x < size.toNat) d.desc.order.memory b.sizes ↔
      List.Forall₂ (· < ·) (d.desc.order.memory.map i) d.desc.memorySizes := by
    rw [← h.sizes, List.forall₂_map_left_iff, List.forall₂_map_right_iff]
  constructor
  · intro hi
    obtain ⟨order, horder, hi⟩ := hi
    rw [h.order, Except.ok.injEq] at horder
    subst horder
    exact .of_memory (hmemory.1 hi)
  · intro hi
    exact ⟨d.desc.order, h.order, hmemory.2 hi.memory⟩

end Buffer

/-- A descriptor is read as it was written. -/
theorem Data.read_descriptor {d : Data} {bytes : Bytes} {c : Cursor} {rest : List UInt8}
    (h : d.descriptor = .ok bytes) (hlength : ∀ strides, d.strides = some strides → strides.length = d.desc.rank)
    (hc : c.Ahead (bytes.toList ++ rest)) : ∃ b c', Buffer.read c = .ok (b, c') ∧ c'.Ahead rest ∧ b.Shows d := by
  unfold Data.descriptor at h
  split at h
  · cases h
  next strides hstrides =>
    simp only [Outcome.bind_eq_ok, Outcome.pure_eq_ok] at h
    obtain ⟨_, hoffsetBytes, _, hrankBytes, _, hsizesBytes, _, hstridesBytes, rfl⟩ := h
    obtain ⟨offset, rfl, hoffset⟩ := Bytes.ofSize_eq_ok hoffsetBytes
    obtain ⟨rank, rfl, hrank⟩ := Bytes.ofSize_eq_ok hrankBytes
    obtain ⟨sizes, hsizes, hsizeBytes⟩ := Bytes.ofSizes_eq_ok hsizesBytes
    obtain ⟨strideWords, hstrideWords, hstrideBytes⟩ := Bytes.ofSizes_eq_ok hstridesBytes
    simp only [Array.toList_append, List.append_assoc, hsizeBytes, hstrideBytes] at hc
    obtain ⟨c₁, harea, hc⟩ := Cursor.readUInt32_ahead hc
    obtain ⟨c₂, hoffsetRead, hc⟩ := Cursor.readUInt32_ahead hc
    obtain ⟨c₃, hdtype, hc⟩ := Cursor.readUInt32_ahead hc
    obtain ⟨c₄, horder, hc⟩ := Cursor.readUInt32_ahead hc
    obtain ⟨c₅, hrankRead, hc⟩ := Cursor.readUInt32_ahead hc
    obtain ⟨c₆, hsizesRead, hc⟩ := Cursor.readWords_ahead hc
    obtain ⟨c₇, hstridesRead, hc⟩ := Cursor.readWords_ahead hc
    have hsizesLength : rank.toNat = sizes.length := by
      rw [hrank, ← @List.length_map _ _ sizes UInt32.toNat, hsizes, ← d.desc.memorySizes_eq.length_eq,
        d.desc.length_memory]
    have hstridesLength : rank.toNat = strideWords.length := by
      rw [hrank, ← hlength strides hstrides, ← hstrideWords, List.length_map]
    have harea : c.readUInt32 = .ok ((d.location.map fun l => l.area.code).getD 0, c₁) := by
      rw [harea]
      cases d.location <;> rfl
    refine ⟨⟨_, offset, d.desc.dtype.code, UInt32.ofNat d.desc.order.code, sizes, strideWords⟩, c₇, ?_, hc, rfl,
      ?_, rfl, ?_, hsizes, by rw [hstrides, hstrideWords]⟩
    · simp only [Buffer.read, Outcome.bind_eq_ok, Outcome.pure_eq_ok]
      exact ⟨_, harea, _, hoffsetRead, _, hdtype, _, horder, _, hrankRead, _, hsizesLength ▸ hsizesRead, _,
        hstridesLength ▸ hstridesRead, rfl⟩
    · rw [hoffset]
      cases d.location <;> rfl
    · rw [UInt32.toNat_ofNat_of_lt' d.desc.order.code_lt, Order.ofCode_code]

/-! ## Data sections -/

namespace Site

variable {s : Site}

/-- The descriptors of all slots are read as they were written. -/
theorem read_slots {bytes : Bytes} {c : Cursor} {rest : List UInt8} (h : s.slotBytes = .ok bytes)
    (hlength : ∀ d ∈ s.inputs ++ s.outputs, ∀ strides, d.strides = some strides → strides.length = d.desc.rank)
    (hc : c.Ahead (bytes.toList ++ rest)) :
    ∃ buffers c', Buffer.readMany (s.inputs ++ s.outputs).length c = .ok (buffers, c') ∧ c'.Ahead rest ∧
      List.Forall₂ (fun d b => b.Shows d) (s.inputs ++ s.outputs) buffers := by
  obtain ⟨chunks, hchunks, hbytes⟩ := Bytes.foldlM_append_eq_ok h
  rw [hbytes, List.nil_append] at hc
  generalize s.inputs ++ s.outputs = datas at hlength hchunks
  clear hbytes h
  induction hchunks generalizing c with
  | nil => exact ⟨[], c, rfl, hc, .nil⟩
  | cons hchunk _ ih =>
    rw [List.flatMap_cons, List.append_assoc] at hc
    obtain ⟨b, c₁, hread, hc, hshows⟩ := Data.read_descriptor hchunk (hlength _ (by simp)) hc
    obtain ⟨buffers, c₂, hmany, hc, hall⟩ := ih hc fun d hd => hlength d (by simp [hd])
    exact ⟨b :: buffers, c₂, Outcome.bind_eq_ok.2 ⟨_, hread, Outcome.bind_eq_ok.2 ⟨_, hmany, rfl⟩⟩, hc,
      .cons hshows hall⟩

theorem weightableBytes_eq_ok {bytes : Bytes} (h : s.weightableBytes = .ok bytes) :
    ∃ slots rest, s.slotBytes = .ok slots ∧ bytes = slots ++ rest := by
  simp only [weightableBytes, Outcome.bind_eq_ok, Outcome.pure_eq_ok] at h
  obtain ⟨slots, hslots, _, _, _, _, rfl⟩ := h
  exact ⟨slots, _, hslots, Array.append_assoc⟩

/-- Data sections begin with the descriptors of the slots. -/
theorem dataBytes_eq_ok {f : StageFamily} {bytes : Bytes} (h : f.dataBytes s = .ok bytes) :
    ∃ slots rest, s.slotBytes = .ok slots ∧ bytes = slots ++ rest := by
  have plain (h : s.slotBytes = .ok bytes) : ∃ slots rest, s.slotBytes = .ok slots ∧ bytes = slots ++ rest :=
    ⟨bytes, #[], h, Array.append_empty.symm⟩
  cases f with
  | stub => cases h
  | convolution | fullyConnected => exact weightableBytes_eq_ok h
  | hardware =>
    simp only [StageFamily.dataBytes, Outcome.bind_eq_ok] at h
    obtain ⟨op, _, h⟩ := h
    split at h
    · exact weightableBytes_eq_ok h
    · exact plain h
  | pooling | power | permute | copy | split | concat => exact plain h

end Site

/-- The tensors at the slots of a stage are tensors of the graph. -/
theorem Graph.data_of_site {g : Graph} {id : StageId} {site : Site} {node : Data} (h : g.site id = .ok site)
    (hnode : node ∈ site.inputs ++ site.outputs) : ∃ d, g.data? d = some node := by
  obtain ⟨kind, hmem⟩ : ∃ kind, node ∈ site.slots kind := by
    rcases List.mem_append.1 hnode with hmem | hmem
    · exact ⟨.input, hmem⟩
    · exact ⟨.output, hmem⟩
  obtain ⟨k, hk⟩ := List.mem_iff_getElem?.1 hmem
  obtain ⟨e, _, htensor⟩ := edge_of_site h hk
  obtain ⟨d, _, hd⟩ := tensor?_eq_some.1 htensor
  exact ⟨d, hd⟩

/-- From the entry of a stage the buffers of its inputs are read, slot by slot. -/
theorem Graph.Describes.read_input {g : Graph} {id : StageId} {s : Stage} {r : StageRecord} (h : g.Describes id r)
    (hs : g.stage? id = some s)
    (hlength : ∀ d node strides, g.data? d = some node → node.strides = some strides →
      strides.length = node.desc.rank) :
    ∃ buffers c, Buffer.readMany (s.inputs.length + s.outputs.length) { bytes := r.data } = .ok (buffers, c) ∧
      ∀ slot d node, g.AtSlot .input id slot d → g.data? d = some node → ∃ b, buffers[slot]? = some b ∧
        b.Shows node := by
  obtain ⟨site, hsite, _, _, hdata⟩ := h.site
  obtain ⟨slots, rest, hslots, hbytes⟩ := Site.dataBytes_eq_ok hdata
  obtain ⟨hs', hall⟩ := site_eq_ok.1 hsite
  rw [hs, Option.some.injEq] at hs'
  subst hs'
  have hcount : (site.inputs ++ site.outputs).length = site.stage.inputs.length + site.stage.outputs.length := by
    rw [List.length_append]
    exact congrArg₂ (· + ·) (length_of_site hsite .input) (length_of_site hsite .output)
  have hstrided : ∀ node ∈ site.inputs ++ site.outputs, ∀ strides, node.strides = some strides →
      strides.length = node.desc.rank := by
    intro node hnode strides
    obtain ⟨d, hd⟩ := data_of_site hsite hnode
    exact hlength d node strides hd
  have hahead : Cursor.Ahead { bytes := r.data } (slots.toList ++ rest.toList) :=
    ⟨[], by rw [hbytes, Array.toList_append, List.nil_append], rfl⟩
  obtain ⟨buffers, c, hread, -, hshown⟩ := Site.read_slots hslots hstrided hahead
  refine ⟨buffers, c, hcount ▸ hread, fun slot d node hslot hd => ?_⟩
  obtain ⟨s, e, hs'', he, htarget⟩ := hslot
  rw [hs, Option.some.injEq] at hs''
  subst hs''
  have hnode : site.inputs[slot]? = some node :=
    (slot_of_site hsite he).trans ((tensor?_of_target? htarget).trans hd)
  obtain ⟨hlt, _⟩ := List.getElem?_eq_some_iff.1 hnode
  obtain ⟨b, hb, hshows⟩ := forall₂_getElem? hshown (k := slot) (a := node)
    (by rw [List.getElem?_append_left hlt, hnode])
  exact ⟨b, hb, hshows⟩

end NetLower
