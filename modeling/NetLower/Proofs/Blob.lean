/-
Reading blobs back.  Each piece of a blob is read from the front of what is ahead of the
reader: a word, an entry with the lengths of its parts before them, a table of entries.
What the header says about the places of table and constants is where they are.
-/
import NetLower.Blob.Write
import NetLower.Proofs.Graph.RunOrder
import NetLower.Proofs.Tensor.Encode

namespace NetLower

/-! ## Words -/

namespace Bytes

/-- The four bytes of a word are the word. -/
theorem toUInt32_ofUInt32 (v : UInt32) : (ofUInt32 v).toUInt32 = v := by
  have byte (x i : Nat) : (x % 256).testBit i = (decide (i < 8) && x.testBit i) := Nat.testBit_mod_two_pow x 8 i
  have word (x i : Nat) : (x % 4294967296).testBit i = (decide (i < 32) && x.testBit i) :=
    Nat.testBit_mod_two_pow x 32 i
  refine UInt32.toNat_inj.1 (Nat.eq_of_testBit_eq fun i => ?_)
  have moved (k : Nat) : (decide (k ≤ i) && (decide (i - k < 8) && v.toNat.testBit (k + (i - k)))) =
      (decide (k ≤ i ∧ i < k + 8) && v.toNat.testBit i) := by
    by_cases hk : k ≤ i
    · have hlt : i - k < 8 ↔ i < k + 8 := by omega
      simp [hk, hlt]
    · simp [hk]
  have bits : (ofUInt32 v).toUInt32.toNat.testBit i = (decide (i < 8) && v.toNat.testBit i ||
      decide (i < 32) && (decide (8 ≤ i ∧ i < 16) && v.toNat.testBit i) ||
      decide (i < 32) && (decide (16 ≤ i ∧ i < 24) && v.toNat.testBit i) ||
      decide (i < 32) && (decide (24 ≤ i ∧ i < 32) && v.toNat.testBit i)) := by
    simp [toUInt32, ofUInt32, byte, word, moved]
  rw [bits]
  cases hb : v.toNat.testBit i with
  | false => simp
  | true =>
    have hi : i < 32 := by
      by_contra hi
      have := Nat.lt_of_lt_of_le v.toNat_lt (Nat.pow_le_pow_right (by decide) (Nat.le_of_not_lt hi))
      simp [Nat.testBit_lt_two_pow this] at hb
    simp only [Bool.and_true, Bool.or_eq_true, Bool.and_eq_true, decide_eq_true_eq]
    omega

theorem ofSize_eq_ok {size : Nat} {bytes : Bytes} (h : ofSize size = .ok bytes) :
    ∃ w : UInt32, bytes = ofUInt32 w ∧ w.toNat = size := by
  unfold ofSize at h
  split at h
  next hlt =>
    cases h
    exact ⟨_, rfl, Nat.mod_eq_of_lt hlt⟩
  · cases h

theorem toList_foldl_append (f : α → Bytes) : ∀ (items : List α) (acc : Bytes),
    (items.foldl (fun bytes a => bytes ++ f a) acc).toList = acc.toList ++ items.flatMap fun a => (f a).toList
  | [], acc => by simp
  | a :: items, acc => by simp [toList_foldl_append f items]

/-- A part is found at its place between what is before and behind it. -/
theorem extract_part {all part : Bytes} {before behind : List UInt8}
    (h : all.toList = before ++ (part.toList ++ behind)) :
    all.extract before.length (before.length + part.size) = part := by
  refine Array.toList_inj.1 ?_
  rw [Array.toList_extract, h, List.extract_eq_take_drop]
  simp

end Bytes

/-! ## Cursors -/

namespace Cursor

variable {c : Cursor} {rest : List UInt8}

/-- What is ahead of a cursor, up to the end. -/
def Ahead (c : Cursor) (rest : List UInt8) : Prop :=
  ∃ done, c.bytes.toList = done ++ rest ∧ c.position = done.length

theorem Ahead.remaining_eq (h : c.Ahead rest) : c.remaining = rest.length := by
  obtain ⟨done, hbytes, hposition⟩ := h
  have hlength := congrArg List.length hbytes
  rw [Array.length_toList, List.length_append] at hlength
  rw [remaining, hlength, hposition, Nat.add_sub_cancel_left]

theorem read_ahead {bytes : Bytes} (h : c.Ahead (bytes.toList ++ rest)) :
    ∃ c', c.read bytes.size = .ok (bytes, c') ∧ c'.Ahead rest := by
  obtain ⟨done, hbytes, hposition⟩ := h
  have hsize : c.bytes.size = done.length + (bytes.size + rest.length) := by
    simpa using congrArg List.length hbytes
  have hread : c.bytes.extract c.position (c.position + bytes.size) = bytes := by
    rw [hposition]
    exact Bytes.extract_part hbytes
  refine ⟨{ c with position := c.position + bytes.size }, ?_, done ++ bytes.toList, by simp [hbytes],
    by simp [hposition]⟩
  simp only [read, hread]
  rw [if_pos (by omega)]

theorem readUInt32_ahead {v : UInt32} (h : c.Ahead ((Bytes.ofUInt32 v).toList ++ rest)) :
    ∃ c', c.readUInt32 = .ok (v, c') ∧ c'.Ahead rest := by
  obtain ⟨c', hread, hrest⟩ := read_ahead h
  refine ⟨c', Outcome.bind_eq_ok.2 ⟨_, hread, ?_⟩, hrest⟩
  show pure ((Bytes.ofUInt32 v).toUInt32, c') = _
  rw [Bytes.toUInt32_ofUInt32]
  rfl

end Cursor

/-! ## The stage table -/

namespace StageRecord

/-- An entry is read as it was written. -/
theorem read_ahead {r : StageRecord} {bytes : Bytes} {c : Cursor} {rest : List UInt8} (hr : r.bytes = .ok bytes)
    (h : c.Ahead (bytes.toList ++ rest)) : ∃ c', read c = .ok (r, c') ∧ c'.Ahead rest := by
  simp only [StageRecord.bytes, Outcome.bind_eq_ok, Outcome.pure_eq_ok] at hr
  obtain ⟨_, hparams, _, hdata, rfl⟩ := hr
  obtain ⟨paramsLength, rfl, hparamsSize⟩ := Bytes.ofSize_eq_ok hparams
  obtain ⟨dataLength, rfl, hdataSize⟩ := Bytes.ofSize_eq_ok hdata
  simp only [Array.toList_append, List.append_assoc] at h
  obtain ⟨c₁, hcode, h⟩ := Cursor.readUInt32_ahead h
  obtain ⟨c₂, hparamsLength, h⟩ := Cursor.readUInt32_ahead h
  obtain ⟨c₃, hparamsRead, h⟩ := Cursor.read_ahead h
  obtain ⟨c₄, hdataLength, h⟩ := Cursor.readUInt32_ahead h
  obtain ⟨c₅, hdataRead, h⟩ := Cursor.read_ahead h
  refine ⟨c₅, ?_, h⟩
  simp only [read, Outcome.bind_eq_ok, Outcome.pure_eq_ok]
  exact ⟨_, hcode, _, hparamsLength, _, hparamsSize ▸ hparamsRead, _, hdataLength, _, hdataSize ▸ hdataRead, rfl⟩

/-- Entries one after the other are read as they were written. -/
theorem readMany_ahead {records : List StageRecord} {chunks : List Bytes} {c : Cursor} {rest : List UInt8}
    (hchunks : List.Forall₂ (fun r bytes => r.bytes = .ok bytes) records chunks)
    (h : c.Ahead (chunks.flatMap Array.toList ++ rest)) :
    ∃ c', readMany records.length c = .ok (records, c') ∧ c'.Ahead rest := by
  induction hchunks generalizing c with
  | nil => exact ⟨c, rfl, h⟩
  | cons hr _ ih =>
    rw [List.flatMap_cons, List.append_assoc] at h
    obtain ⟨c₁, hread, h⟩ := read_ahead hr h
    obtain ⟨c₂, hmany, h⟩ := ih h
    exact ⟨c₂, Outcome.bind_eq_ok.2 ⟨_, hread, Outcome.bind_eq_ok.2 ⟨_, hmany, rfl⟩⟩, h⟩

end StageRecord

namespace Graph

variable {g : Graph}

/-- An entry describes a stage: it has the code of its kind and the bytes of its two sections. -/
structure Describes (g : Graph) (id : StageId) (r : StageRecord) : Prop where
  site : ∃ site, g.site id = .ok site ∧ site.kind.code? = some r.code ∧
    site.kind.family.params site = .ok r.params ∧ site.kind.family.dataBytes site = .ok r.data

theorem stageRecord_describes {id : StageId} {r : StageRecord} (h : g.stageRecord id = .ok r) :
    g.Describes id r := by
  simp only [stageRecord, Outcome.bind_eq_ok] at h
  obtain ⟨site, hsite, h⟩ := h
  split at h
  · cases h
  next code hcode =>
    simp only [Outcome.bind_eq_ok, Outcome.pure_eq_ok] at h
    obtain ⟨params, hparams, data, hdata, rfl⟩ := h
    exact ⟨site, hsite, hcode, hparams, hdata⟩

/-- The table is made of the entries of the stages, in order. -/
theorem tableBytes_eq_ok {order : List StageId} {table : Bytes} (h : g.tableBytes order = .ok table) :
    ∃ records chunks, List.Forall₂ g.Describes order records ∧
      List.Forall₂ (fun r bytes => r.bytes = .ok bytes) records chunks ∧
        table.toList = chunks.flatMap Array.toList := by
  have from_acc : ∀ {order : List StageId} {acc : Bytes},
      order.foldlM (fun bytes id => do return bytes ++ (← (← g.stageRecord id).bytes)) acc = Except.ok table →
      ∃ records chunks, List.Forall₂ g.Describes order records ∧
        List.Forall₂ (fun r bytes => r.bytes = .ok bytes) records chunks ∧
        table.toList = acc.toList ++ chunks.flatMap Array.toList := by
    intro order
    induction order with
    | nil =>
      intro acc h
      cases h
      exact ⟨[], [], .nil, .nil, by simp⟩
    | cons id order ih =>
      intro acc h
      simp only [List.foldlM_cons, Outcome.bind_eq_ok, Outcome.pure_eq_ok] at h
      obtain ⟨_, ⟨r, hr, bytes, hbytes, rfl⟩, h⟩ := h
      obtain ⟨records, chunks, hrecords, hchunks, htable⟩ := ih h
      exact ⟨r :: records, bytes :: chunks, .cons (stageRecord_describes hr) hrecords, .cons hbytes hchunks,
        by simp [htable]⟩
  simpa using from_acc h

end Graph

/-! ## The header -/

namespace Header

theorem toList_bytes (h : Header) : h.bytes.toList = h.words.flatMap fun w => (Bytes.ofUInt32 w).toList :=
  Bytes.toList_foldl_append Bytes.ofUInt32 h.words #[]

theorem size_bytes (h : Header) : h.bytes.size = size := by
  rw [← Array.length_toList, toList_bytes]
  rfl

theorem wordAt_eq {bytes : Bytes} {words : List UInt32} {rest : List UInt8} {index : Nat} {w : UInt32}
    (hbytes : bytes.toList = (words.flatMap fun w => (Bytes.ofUInt32 w).toList) ++ rest)
    (hw : words[index]? = some w) : wordAt bytes index = w := by
  have hextract : (bytes.extract (4 * index) (4 * index + 4)).toList = (Bytes.ofUInt32 w).toList := by
    rw [Array.toList_extract, hbytes, List.extract_eq_take_drop, Nat.add_sub_cancel_left]
    clear hbytes
    induction words generalizing index with
    | nil => simp at hw
    | cons v words ih =>
      cases index with
      | zero =>
        rw [List.getElem?_cons_zero, Option.some.injEq] at hw
        subst hw
        rfl
      | succ index => exact ih hw
  rw [wordAt, Array.toList_inj.1 hextract, Bytes.toUInt32_ofUInt32]

/-- A header is read as it was written. -/
theorem ofBytes_eq_ok {h : Header} {bytes : Bytes} {rest : List UInt8} (hmagic : h.magic = expectedMagic)
    (hversion : h.version = expectedVersion) (hbytes : bytes.toList = h.bytes.toList ++ rest) :
    ofBytes bytes = .ok h := by
  rw [toList_bytes] at hbytes
  have word {index : Nat} {w : UInt32} (hw : h.words[index]? = some w) : wordAt bytes index = w :=
    wordAt_eq hbytes hw
  have hsize : ¬ bytes.size < size := by
    rw [← Array.length_toList, hbytes, List.length_append]
    exact Nat.not_lt.2 (Nat.le_add_right 40 _)
  rw [ofBytes, if_neg hsize]
  simp only [@word 0 _ rfl, @word 1 _ rfl, @word 2 _ rfl, @word 3 _ rfl, @word 4 _ rfl, @word 5 _ rfl,
    @word 6 _ rfl, @word 7 _ rfl, @word 8 _ rfl, @word 9 _ rfl]
  rw [if_neg (not_not.2 hmagic), if_neg (not_not.2 hversion)]

end Header

/-! ## The whole blob -/

theorem Graph.headerSize_eq_ok {what : String} {size : Nat} {w : UInt32} (h : headerSize what size = .ok w) :
    w.toNat = size := by
  unfold headerSize at h
  split at h
  next hlt =>
    cases h
    exact Nat.mod_eq_of_lt hlt
  · cases h

namespace Blob

variable {b : Blob} {table gap consts : Bytes}

/-- The bytes of a blob are its header, a table, a gap and constants, and the header says where the
constants lie. -/
structure Laid (b : Blob) (table gap consts : Bytes) : Prop where
  magic : b.header.magic = Header.expectedMagic
  version : b.header.version = Header.expectedVersion
  constOffset : b.header.constOffset.toNat = Header.size + table.size + gap.size
  constSize : b.header.constSize.toNat = consts.size
  bytes : b.bytes = b.header.bytes ++ (table ++ gap) ++ consts

namespace Laid

theorem length (l : b.Laid table gap consts) :
    b.length = b.header.constOffset.toNat + b.header.constSize.toNat := by
  rw [Blob.length, l.bytes, l.constOffset, l.constSize]
  simp only [Array.size_append, Header.size_bytes]
  omega

theorem ofBytes (l : b.Laid table gap consts) : Blob.ofBytes b.bytes = .ok b := by
  have hheader : Header.ofBytes b.bytes = .ok b.header := by
    refine @Header.ofBytes_eq_ok _ _ (table ++ gap ++ consts).toList l.magic l.version ?_
    simp only [l.bytes, Array.toList_append, List.append_assoc]
  refine Outcome.bind_eq_ok.2 ⟨b.header, hheader, ?_⟩
  exact if_neg (Nat.not_lt.2 (Nat.le_of_eq l.length.symm))

theorem table_eq (l : b.Laid table gap consts) : b.table = .ok (table ++ gap) := by
  have hheader : b.header.bytes.toList.length = Header.size := by rw [Array.length_toList, Header.size_bytes]
  have hoffset : b.header.constOffset.toNat = Header.size + (table ++ gap).size := by
    rw [l.constOffset, Array.size_append, Nat.add_assoc]
  have hbounds : Header.size ≤ b.header.constOffset.toNat ∧ b.header.constOffset.toNat ≤ b.bytes.size := by
    have hlength := l.length
    rw [Blob.length] at hlength
    omega
  have hpart : b.bytes.toList = b.header.bytes.toList ++ ((table ++ gap).toList ++ consts.toList) := by
    rw [l.bytes, Array.toList_append, Array.toList_append, List.append_assoc]
  have hextract := Bytes.extract_part hpart
  rw [hheader] at hextract
  simp only [Blob.table]
  rw [if_pos hbounds, hoffset, hextract]

theorem constSection_eq (l : b.Laid table gap consts) : b.constSection = consts := by
  have hoffset : b.header.constOffset.toNat = (b.header.bytes ++ (table ++ gap)).toList.length := by
    rw [l.constOffset, Array.length_toList, Array.size_append, Header.size_bytes, Array.size_append, Nat.add_assoc]
  have hpart : b.bytes.toList = (b.header.bytes ++ (table ++ gap)).toList ++ (consts.toList ++ []) := by
    rw [l.bytes, Array.toList_append, List.append_nil]
  rw [Blob.constSection, l.constSize, hoffset]
  exact Bytes.extract_part hpart

/-- The entries that a table was made of are read from the blob. -/
theorem stages_eq (l : b.Laid table gap consts) {records : List StageRecord} {chunks : List Bytes}
    (hchunks : List.Forall₂ (fun r bytes => r.bytes = .ok bytes) records chunks)
    (htable : table.toList = chunks.flatMap Array.toList) (hcount : b.stageCount = records.length) :
    b.stages = .ok records := by
  have hahead : Cursor.Ahead { bytes := table ++ gap } (chunks.flatMap Array.toList ++ gap.toList) :=
    ⟨[], by rw [Array.toList_append, htable, List.nil_append], rfl⟩
  obtain ⟨c, hread, -⟩ := StageRecord.readMany_ahead hchunks hahead
  rw [← hcount] at hread
  exact Outcome.bind_eq_ok.2 ⟨_, l.table_eq, Outcome.bind_eq_ok.2 ⟨_, hread, rfl⟩⟩

end Laid

end Blob

namespace Graph

variable {g : Graph} {b : Blob}

/-- The parts of a blob, with a gap that the alignment leaves before the constants. -/
theorem blob_eq_ok (h : g.blob = .ok b) :
    ∃ (order : List StageId) (table gap : Bytes) (extents : AreaSizes) (runs : List Run),
      g.runOrder = .ok order ∧ g.tableBytes order = .ok table ∧ g.extents = .ok extents ∧
      g.constRuns extents.blob = .ok runs ∧ b.stageCount = order.length ∧
      dataAlignment ∣ b.header.constOffset.toNat ∧ b.Laid table gap (Run.lay extents.blob runs) := by
  simp only [blob, Outcome.bind_eq_ok, Outcome.pure_eq_ok] at h
  obtain ⟨order, horder, table, htable, extents, hextents, runs, hruns, constOffset, hoffset, stageCount, hcount,
    offset, hoffset', constSize, hsize, bssSize, _, inputSize, _, outputSize, _, rfl⟩ := h
  obtain ⟨hdvd, hle⟩ := Size.alignUp_eq_ok (by decide) hoffset
  have hoffset' := headerSize_eq_ok hoffset'
  refine ⟨order, table, Array.replicate (constOffset - (Header.size + table.size)) 0, extents, runs, horder,
    htable, hextents, hruns, headerSize_eq_ok hcount, ?_, rfl, rfl, ?_, ?_, ?_⟩
  · show dataAlignment ∣ offset.toNat
    rw [hoffset']
    exact hdvd
  · rw [Array.size_replicate, Nat.add_sub_cancel' hle]
    exact hoffset'
  · rw [Run.size_lay]
    exact headerSize_eq_ok hsize
  · simp only [Array.size_append, Header.size_bytes, Array.append_assoc]

/-- The table has an entry for each stage, in running order. -/
theorem stages_of_blob (h : g.blob = .ok b) :
    ∃ order records, g.runOrder = .ok order ∧ b.stages = .ok records ∧ List.Forall₂ g.Describes order records := by
  obtain ⟨order, table, gap, _, _, horder, htable, _, _, hcount, _, laid⟩ := blob_eq_ok h
  obtain ⟨records, chunks, hrecords, hchunks, htable'⟩ := tableBytes_eq_ok htable
  exact ⟨order, records, horder, laid.stages_eq hchunks htable' (hcount.trans hrecords.length_eq), hrecords⟩

/-- A blob that was written can be read. Reading it gives the blob itself; its constants lie at a
multiple of 64, behind header and table, and end where the blob ends; its table has one entry for
each stage, in running order, with the stage's code and sections; and its constants are those that
were laid out. -/
theorem blob_read_back (h : g.blob = .ok b) :
    Blob.ofBytes b.bytes = .ok b ∧ b.length = b.header.constOffset.toNat + b.header.constSize.toNat ∧
      64 ∣ b.header.constOffset.toNat ∧
      ∃ order table records extents runs,
        g.runOrder = .ok order ∧ order.Nodup ∧ (∀ id, id ∈ order ↔ ∃ s, g.stage? id = some s) ∧
        g.tableBytes order = .ok table ∧ 40 + table.size ≤ b.header.constOffset.toNat ∧
        b.stages = .ok records ∧ List.Forall₂ g.Describes order records ∧
        g.extents = .ok extents ∧ g.constRuns extents.blob = .ok runs ∧
        b.constSection = Run.lay extents.blob runs := by
  obtain ⟨order, table, gap, extents, runs, horder, htable, hextents, hruns, hcount, haligned, l⟩ := blob_eq_ok h
  obtain ⟨records, chunks, hrecords, hchunks, htable'⟩ := tableBytes_eq_ok htable
  have hstages := l.stages_eq hchunks htable' (hcount.trans hrecords.length_eq)
  have hbehind : 40 + table.size ≤ b.header.constOffset.toNat := by
    rw [l.constOffset]
    exact Nat.le_add_right _ _
  have hperm := runOrder_perm horder
  exact ⟨l.ofBytes, l.length, haligned, order, table, records, extents, runs, horder,
    hperm.nodup_iff.2 nodup_liveIds, fun id => hperm.mem_iff.trans mem_liveIds, htable, hbehind, hstages, hrecords,
    hextents, hruns, l.constSection_eq⟩

/-- A constant byte that is copied twice; the stage that runs first was made last. -/
def twoCopies : Graph :=
  let byte : Desc := { dtype := .u8, dims := [1], order := .c, fits := ⟨.c, rfl, Order.c.sameDims_self⟩ }
  { name := "two copies"
    datas := #[
      { name := "constant", desc := byte, role := .const #[.one], consumers := [⟨2⟩], strides := some [1]
        location := some ⟨.blob, 0⟩ },
      { name := "between", desc := byte, role := .intermediate, producer := some ⟨3⟩, consumers := [⟨0⟩]
        strides := some [1], location := some ⟨.bss, 0⟩ },
      { name := "result", desc := byte, role := .output, producer := some ⟨1⟩, strides := some [1]
        location := some ⟨.output, 0⟩ }]
    stages := #[
      some { name := "second", kind := .copy, inputs := [⟨0⟩], outputs := [⟨1⟩] },
      some { name := "first", kind := .copy, inputs := [⟨2⟩], outputs := [⟨3⟩] }]
    edges := #[⟨.input, ⟨1⟩, ⟨0⟩, 0⟩, ⟨.output, ⟨2⟩, ⟨0⟩, 0⟩, ⟨.input, ⟨0⟩, ⟨1⟩, 0⟩, ⟨.output, ⟨1⟩, ⟨1⟩, 0⟩] }

/-- The blob of the two copies has their entries in the order in which they run, and the one
constant. -/
theorem twoCopies_read_back :
    ∃ b, twoCopies.blob = .ok b ∧ Blob.ofBytes b.bytes = .ok b ∧
      (∃ first second, b.stages = .ok [first, second] ∧ twoCopies.Describes ⟨1⟩ first ∧
        twoCopies.Describes ⟨0⟩ second) ∧ b.constSection = #[1] := by
  have horder : twoCopies.runOrder = .ok [⟨1⟩, ⟨0⟩] := by decide +kernel
  have hwritten : twoCopies.blob.isOk := by
    rw [blob, horder]
    decide +kernel
  cases hblob : twoCopies.blob with
  | error e => simp [hblob, Except.isOk, Except.toBool] at hwritten
  | ok b =>
    obtain ⟨hread, -, -, order, table, records, extents, runs, horder', -, -, -, -, hstages, hrecords, hextents,
      hruns, hconsts⟩ := blob_read_back hblob
    cases horder.symm.trans horder'
    cases hextents
    cases hruns
    obtain _ | ⟨hfirst, _ | ⟨hsecond, _ | _⟩⟩ := hrecords
    exact ⟨b, rfl, hread, ⟨_, _, hstages, hfirst, hsecond⟩, hconsts⟩

end Graph

end NetLower
