/-
Reading bytes that nobody vouches for.  Whatever the bytes, reading them is no fault: a place
or a length that leads outside is noticed before anything is read there.  And what is read is
there: the header, each entry of the table and the constants, written again, are the bytes
they were read from.

Memory is taken to be unlimited.  A reader that sets room aside for all the entries that a
header counts, before it has seen the first, may be refused that room; nothing here is about
that refusal.
-/
import NetLower.Proofs.Blob
import NetLower.Proofs.Faults

namespace NetLower

open Outcome (FaultsOnly)

/-! ## Words -/

namespace Bytes

/-- A word of four bytes has these bytes. -/
theorem bytes_of_word (a b c d : UInt8) :
    ofUInt32 (a.toUInt32 ||| b.toUInt32 <<< 8 ||| c.toUInt32 <<< 16 ||| d.toUInt32 <<< 24) = #[a, b, c, d] := by
  have high (x : UInt8) {i : Nat} (hi : 8 ≤ i) : x.toBitVec.getLsbD i = false := BitVec.getLsbD_of_ge _ _ hi
  have first : (a.toUInt32 ||| b.toUInt32 <<< 8 ||| c.toUInt32 <<< 16 ||| d.toUInt32 <<< 24).toUInt8 = a := by
    refine UInt8.toBitVec_inj.1 (BitVec.eq_of_getLsbD_eq fun i hi => ?_)
    simp [hi]
  have second :
      ((a.toUInt32 ||| b.toUInt32 <<< 8 ||| c.toUInt32 <<< 16 ||| d.toUInt32 <<< 24) >>> 8).toUInt8 = b := by
    refine UInt8.toBitVec_inj.1 (BitVec.eq_of_getLsbD_eq fun i hi => ?_)
    have : 8 + i < 16 ∧ 8 + i < 24 ∧ 8 + i < 32 ∧ i < 32 := by omega
    simp [hi, this]
  have third :
      ((a.toUInt32 ||| b.toUInt32 <<< 8 ||| c.toUInt32 <<< 16 ||| d.toUInt32 <<< 24) >>> 16).toUInt8 = c := by
    refine UInt8.toBitVec_inj.1 (BitVec.eq_of_getLsbD_eq fun i hi => ?_)
    have : 16 + i < 24 ∧ 16 + i < 32 ∧ i < 32 := by omega
    simp [hi, this, high a (i := 16 + i) (by omega), high b (i := 16 + i - 8) (by omega)]
  have fourth :
      ((a.toUInt32 ||| b.toUInt32 <<< 8 ||| c.toUInt32 <<< 16 ||| d.toUInt32 <<< 24) >>> 24).toUInt8 = d := by
    refine UInt8.toBitVec_inj.1 (BitVec.eq_of_getLsbD_eq fun i hi => ?_)
    have : 24 + i < 32 ∧ i < 32 := by omega
    simp [hi, this, high a (i := 24 + i) (by omega), high b (i := 24 + i - 8) (by omega),
      high c (i := 24 + i - 16) (by omega)]
  rw [ofUInt32, first, second, third, fourth]

/-- Four bytes are the bytes of their word. -/
theorem ofUInt32_toUInt32 {bytes : Bytes} (h : bytes.size = 4) : ofUInt32 bytes.toUInt32 = bytes := by
  obtain ⟨bytes⟩ := bytes
  obtain ⟨a, b, c, d, rfl⟩ : ∃ a b c d, bytes = [a, b, c, d] := by
    match bytes, h with
    | [a, b, c, d], _ => exact ⟨a, b, c, d, rfl⟩
  exact bytes_of_word a b c d

end Bytes

/-! ## Cursors -/

namespace Cursor

variable {P : Fault → Prop} {c c' : Cursor} {ahead : List UInt8}

@[simp] theorem faultsOnly_read (c : Cursor) (count : Nat) : FaultsOnly P (c.read count) := by simp [read]

@[simp] theorem faultsOnly_readUInt32 (c : Cursor) : FaultsOnly P c.readUInt32 := by simp [readUInt32]

theorem ahead_start (bytes : Bytes) : Ahead { bytes } bytes.toList := ⟨[], rfl, rfl⟩

/-- What is read stood ahead. -/
theorem Ahead.read {count : Nat} {bytes : Bytes} (h : c.Ahead ahead) (hread : c.read count = .ok (bytes, c')) :
    bytes.size = count ∧ ∃ rest, ahead = bytes.toList ++ rest ∧ c'.Ahead rest := by
  obtain ⟨done, hbytes, hposition⟩ := h
  simp only [Cursor.read] at hread
  split at hread
  next hle =>
    cases hread
    have htaken : (c.bytes.extract c.position (c.position + count)).toList = ahead.take count := by
      rw [Array.toList_extract, hbytes, hposition, List.extract_eq_take_drop, List.drop_left,
        Nat.add_sub_cancel_left]
    refine ⟨by simp only [Array.size_extract]; omega, ahead.drop count, by rw [htaken, List.take_append_drop], ?_⟩
    refine ⟨done ++ ahead.take count, by simp [hbytes], ?_⟩
    have hlength := congrArg List.length htaken
    simp only [Array.length_toList, Array.size_extract] at hlength
    simp only [List.length_append]
    omega
  · cases hread

theorem Ahead.readUInt32 {word : UInt32} (h : c.Ahead ahead) (hread : c.readUInt32 = .ok (word, c')) :
    ∃ rest, ahead = (Bytes.ofUInt32 word).toList ++ rest ∧ c'.Ahead rest := by
  simp only [Cursor.readUInt32, Outcome.bind_eq_ok, Outcome.pure_eq_ok, Prod.mk.injEq, Prod.exists] at hread
  obtain ⟨bytes, _, hread, rfl, rfl⟩ := hread
  obtain ⟨hsize, rest, hahead, hrest⟩ := h.read hread
  exact ⟨rest, by rw [Bytes.ofUInt32_toUInt32 hsize, hahead], hrest⟩

end Cursor

/-! ## The stage table -/

namespace StageRecord

variable {P : Fault → Prop} {c c' : Cursor} {ahead : List UInt8}

@[simp] theorem faultsOnly_read (c : Cursor) : FaultsOnly P (read c) := by simp [read]

@[simp] theorem faultsOnly_readMany (count : Nat) (c : Cursor) : FaultsOnly P (readMany count c) := by
  induction count generalizing c with
  | zero => simp [readMany]
  | succ count ih => simp [readMany, ih]

/-- The bytes of an entry are those it was read from. -/
theorem bytes_of_read {r : StageRecord} (h : c.Ahead ahead) (hread : read c = .ok (r, c')) :
    ∃ chunk rest, r.bytes = .ok chunk ∧ ahead = chunk.toList ++ rest ∧ c'.Ahead rest := by
  simp only [read, Outcome.bind_eq_ok, Outcome.pure_eq_ok, Prod.mk.injEq, Prod.exists] at hread
  obtain ⟨code, c₁, hcode, paramsLength, c₂, hparamsLength, params, c₃, hparams, dataLength, c₄, hdataLength, data,
    c₅, hdata, rfl, rfl⟩ := hread
  obtain ⟨_, rfl, h₁⟩ := h.readUInt32 hcode
  obtain ⟨_, rfl, h₂⟩ := h₁.readUInt32 hparamsLength
  obtain ⟨hparamsSize, _, rfl, h₃⟩ := h₂.read hparams
  obtain ⟨_, rfl, h₄⟩ := h₃.readUInt32 hdataLength
  obtain ⟨hdataSize, rest, rfl, h₅⟩ := h₄.read hdata
  -- A length that was read from a word can be written as one.
  have written {part : Bytes} {length : UInt32} (hsize : part.size = length.toNat) :
      Bytes.ofSize part.size = .ok (Bytes.ofUInt32 length) := by
    rw [hsize, Bytes.ofSize, if_pos length.toNat_lt, UInt32.ofNat_toNat]
  refine ⟨_, rest, Outcome.bind_eq_ok.2 ⟨_, written hparamsSize, Outcome.bind_eq_ok.2 ⟨_, written hdataSize, rfl⟩⟩,
    ?_, h₅⟩
  simp only [Array.toList_append, List.append_assoc]

theorem bytes_of_readMany {count : Nat} {records : List StageRecord} (h : c.Ahead ahead)
    (hread : readMany count c = .ok (records, c')) :
    records.length = count ∧ ∃ chunks, List.Forall₂ (fun r bytes => r.bytes = .ok bytes) records chunks ∧
      chunks.flatMap Array.toList <+: ahead := by
  induction count generalizing c ahead records with
  | zero =>
    cases hread
    exact ⟨rfl, [], .nil, List.nil_prefix⟩
  | succ count ih =>
    simp only [readMany, Outcome.bind_eq_ok, Outcome.pure_eq_ok, Prod.mk.injEq, Prod.exists] at hread
    obtain ⟨r, c₁, hfirst, records, c₂, hrest, rfl, rfl⟩ := hread
    obtain ⟨chunk, rest, hchunk, rfl, h₁⟩ := bytes_of_read h hfirst
    obtain ⟨hlength, chunks, hchunks, hprefix⟩ := ih h₁ hrest
    refine ⟨by rw [List.length_cons, hlength], chunk :: chunks, .cons hchunk hchunks, ?_⟩
    rw [List.flatMap_cons]
    exact (List.prefix_append_right_inj _).2 hprefix

/-- Entries are read exactly if their bytes stand at the front. -/
theorem readMany_eq_ok_iff {count : Nat} {bytes : Bytes} {records : List StageRecord} :
    (∃ c, readMany count { bytes } = .ok (records, c)) ↔
      records.length = count ∧ ∃ chunks, List.Forall₂ (fun r bytes => r.bytes = .ok bytes) records chunks ∧
        chunks.flatMap Array.toList <+: bytes.toList := by
  constructor
  · rintro ⟨c, hread⟩
    exact bytes_of_readMany (Cursor.ahead_start bytes) hread
  · rintro ⟨rfl, chunks, hchunks, rest, hrest⟩
    obtain ⟨c, hread, _⟩ := readMany_ahead hchunks (hrest ▸ Cursor.ahead_start bytes)
    exact ⟨c, hread⟩

end StageRecord

/-! ## The header -/

namespace Header

@[simp] theorem faultsOnly_ofBytes {P : Fault → Prop} (bytes : Bytes) : FaultsOnly P (ofBytes bytes) := by
  simp [ofBytes]

/-- Words read one after the other are the bytes they were read from. -/
theorem flatMap_wordAt {bytes : Bytes} {count : Nat} (h : 4 * count ≤ bytes.size) :
    ((List.range count).map (wordAt bytes)).flatMap (fun w => (Bytes.ofUInt32 w).toList) =
      bytes.toList.take (4 * count) := by
  induction count with
  | zero => rfl
  | succ count ih =>
    have hword : Bytes.ofUInt32 (wordAt bytes count) = bytes.extract (4 * count) (4 * count + 4) :=
      Bytes.ofUInt32_toUInt32 (by rw [Array.size_extract]; omega)
    rw [List.range_succ, List.map_append, List.flatMap_append, ih (by omega), List.map_singleton,
      List.flatMap_singleton, hword, Array.toList_extract, List.extract_eq_take_drop, Nat.add_sub_cancel_left,
      Nat.mul_succ, List.take_add]

/-- A header is read exactly if its bytes stand at the front and it is marked as the header of a
blob of this version. -/
theorem ofBytes_eq_ok_iff {h : Header} {bytes : Bytes} : ofBytes bytes = .ok h ↔
    h.bytes.toList <+: bytes.toList ∧ h.magic = expectedMagic ∧ h.version = expectedVersion := by
  constructor
  · intro hread
    unfold ofBytes at hread
    split at hread
    · cases hread
    next hsize =>
    simp only at hread
    split at hread
    · cases hread
    next hmagic =>
    split at hread
    · cases hread
    next hversion =>
    cases hread
    refine ⟨?_, not_not.1 hmagic, not_not.1 hversion⟩
    rw [toList_bytes]
    exact (@flatMap_wordAt bytes 10 (Nat.le_of_not_lt hsize)) ▸ List.take_prefix _ _
  · rintro ⟨⟨rest, hrest⟩, hmagic, hversion⟩
    exact ofBytes_eq_ok hmagic hversion hrest.symm

end Header

/-! ## Blobs -/

namespace Blob

variable {P : Fault → Prop} {b : Blob} {bytes : Bytes}

@[simp] theorem faultsOnly_ofBytes (bytes : Bytes) : FaultsOnly P (ofBytes bytes) := by simp [ofBytes]

@[simp] theorem faultsOnly_table (b : Blob) : FaultsOnly P b.table := by simp [table]

@[simp] theorem faultsOnly_stages (b : Blob) : FaultsOnly P b.stages := by simp [stages]

theorem ofBytes_eq_ok_iff : ofBytes bytes = .ok b ↔ b.bytes = bytes ∧ b.header.bytes.toList <+: bytes.toList ∧
    b.header.magic = Header.expectedMagic ∧ b.header.version = Header.expectedVersion ∧
    b.header.constOffset.toNat + b.header.constSize.toNat ≤ bytes.size := by
  obtain ⟨header, stored⟩ := b
  simp only [ofBytes, Outcome.bind_eq_ok]
  constructor
  · rintro ⟨header', hread, h⟩
    split at h
    · cases h
    next hstop =>
      cases h
      obtain ⟨hfront, hmagic, hversion⟩ := Header.ofBytes_eq_ok_iff.1 hread
      exact ⟨rfl, hfront, hmagic, hversion, Nat.le_of_not_lt hstop⟩
  · rintro ⟨rfl, hfront, hmagic, hversion, hstop⟩
    exact ⟨header, Header.ofBytes_eq_ok_iff.2 ⟨hfront, hmagic, hversion⟩, if_neg (Nat.not_lt.2 hstop)⟩

/-- The entries of a table are read exactly if there are as many as the header says and their bytes
stand at the front of the table, which is between the header and the constants. -/
theorem stages_eq_ok_iff {records : List StageRecord} : b.stages = .ok records ↔
    Header.size ≤ b.header.constOffset.toNat ∧ b.header.constOffset.toNat ≤ b.bytes.size ∧
      records.length = b.stageCount ∧ ∃ chunks, List.Forall₂ (fun r bytes => r.bytes = .ok bytes) records chunks ∧
        chunks.flatMap Array.toList <+: (b.bytes.extract Header.size b.header.constOffset.toNat).toList := by
  simp only [stages, table, Outcome.bind_eq_ok, Outcome.pure_eq_ok, Prod.exists]
  constructor
  · rintro ⟨table, htable, records', c, hread, rfl⟩
    split at htable
    next hbounds =>
      cases htable
      exact ⟨hbounds.1, hbounds.2, StageRecord.readMany_eq_ok_iff.1 ⟨c, hread⟩⟩
    · cases htable
  · rintro ⟨hstart, hstop, hrecords⟩
    obtain ⟨c, hread⟩ := StageRecord.readMany_eq_ok_iff.2 hrecords
    exact ⟨_, if_pos ⟨hstart, hstop⟩, records, c, hread, rfl⟩

/-- The constants lie where the header says. -/
theorem getElem?_constSection (h : b.header.constOffset.toNat + b.header.constSize.toNat ≤ b.bytes.size) :
    b.constSection.size = b.header.constSize.toNat ∧
      ∀ k, k < b.header.constSize.toNat → b.constSection[k]? = b.bytes[b.header.constOffset.toNat + k]? := by
  simp only [constSection]
  refine ⟨by rw [Array.size_extract]; omega, fun k hk => ?_⟩
  rw [Array.getElem?_extract, if_pos (by omega)]

/-- Reading any bytes at all as a blob is no fault. What is read is there: the bytes begin with the
header, the constants are the bytes that it gives them, and the table, which again can be read or
refused but is no fault to read, has exactly the entries of which the bytes, as many as the header
says, stand between the header and the constants. -/
theorem ofBytes_safe_and_exact (bytes : Bytes) :
    (∀ cause, ofBytes bytes ≠ .error (.fault cause)) ∧
      ∀ b, ofBytes bytes = .ok b →
        b.bytes = bytes ∧ b.header.bytes = bytes.extract 0 40 ∧
        b.header.constOffset.toNat + b.header.constSize.toNat ≤ bytes.size ∧
        (b.constSection.size = b.header.constSize.toNat ∧
          ∀ k, k < b.header.constSize.toNat → b.constSection[k]? = bytes[b.header.constOffset.toNat + k]?) ∧
        (∀ cause, b.stages ≠ .error (.fault cause)) ∧
        ∀ records, b.stages = .ok records ↔ 40 ≤ b.header.constOffset.toNat ∧
          records.length = b.header.stageCount.toNat ∧
          ∃ chunks, List.Forall₂ (fun r chunk => r.bytes = .ok chunk) records chunks ∧
            chunks.flatMap Array.toList <+: (bytes.extract 40 b.header.constOffset.toNat).toList := by
  refine ⟨fun cause h => (faultsOnly_ofBytes (P := fun _ => False) bytes).fault h, fun b h => ?_⟩
  obtain ⟨rfl, hfront, _, _, hstop⟩ := ofBytes_eq_ok_iff.1 h
  have hheader : b.header.bytes = b.bytes.extract 0 40 := by
    refine Array.toList_inj.1 ?_
    rw [List.prefix_iff_eq_take.1 hfront, Array.length_toList, Header.size_bytes, Array.toList_extract,
      List.extract_eq_take_drop]
    rfl
  refine ⟨rfl, hheader, hstop, getElem?_constSection hstop,
    fun cause h => (faultsOnly_stages (P := fun _ => False) b).fault h, fun records => ?_⟩
  have hwithin : b.header.constOffset.toNat ≤ b.bytes.size := Nat.le_trans (Nat.le_add_right _ _) hstop
  exact stages_eq_ok_iff.trans (and_congr_right fun _ => and_iff_right hwithin)

/-- A blob with one entry, something behind it, two constant bytes and more behind those; its header
counts the entries as it is told to. -/
def oneEntry (count : UInt32) : Bytes :=
  let header : Header := { stageCount := count, constOffset := 56, constSize := 2 }
  header.bytes ++ #[6, 0, 0, 0, 1, 0, 0, 0, 9, 0, 0, 0, 0] ++ #[1, 2, 3] ++ #[7, 8] ++ #[5]

/-- The entry is read and written again. Where the header counts as many as a word can hold, the
table is refused, and the constants can be had all the same. (At 40 bytes an entry, room for all that
are counted would be 171.8 GB.) -/
theorem oneEntry_safe_and_exact :
    (∃ b, ofBytes (oneEntry 1) = .ok b ∧ b.stages = .ok [⟨6, #[9], #[]⟩] ∧ b.constSection = #[7, 8] ∧
        ∃ chunk, StageRecord.bytes ⟨6, #[9], #[]⟩ = .ok chunk ∧
        chunk.toList <+: ((oneEntry 1).extract 40 56).toList) ∧
      ∃ b, ofBytes (oneEntry 0xFFFFFFFF) = .ok b ∧ b.constSection.size = 2 ∧
        b.stages = .error (.codec (.readPastEnd 4 13 16)) := by
  constructor
  · have hblob : ofBytes (oneEntry 1) =
        .ok ⟨{ stageCount := 1, constOffset := 56, constSize := 2 }, oneEntry 1⟩ := by decide +kernel
    have hread : stages ⟨{ stageCount := 1, constOffset := 56, constSize := 2 }, oneEntry 1⟩ =
        .ok [⟨6, #[9], #[]⟩] := by
      decide +kernel
    obtain ⟨_, _, _, _, _, hstages⟩ := (ofBytes_safe_and_exact (oneEntry 1)).2 _ hblob
    obtain ⟨_, _, chunks, hchunks, hfront⟩ := (hstages _).1 hread
    obtain _ | ⟨hchunk, _ | _⟩ := hchunks
    exact ⟨_, hblob, hread, by decide +kernel, _, hchunk, by simpa using hfront⟩
  · have hblob : ofBytes (oneEntry 0xFFFFFFFF) =
        .ok ⟨{ stageCount := 0xFFFFFFFF, constOffset := 56, constSize := 2 },
          oneEntry 0xFFFFFFFF⟩ := by decide +kernel
    obtain ⟨_, _, _, hconsts, _, _⟩ := (ofBytes_safe_and_exact (oneEntry 0xFFFFFFFF)).2 _ hblob
    refine ⟨_, hblob, hconsts.1, ?_⟩
    decide +kernel

end Blob

end NetLower
