/-
Blobs.  A blob is its header, the stage table right behind it, and the constants
at the offset that the header gives.
-/
import NetLower.Blob.Header
import NetLower.Stage.Kind

namespace NetLower

/-- An entry of the stage table. -/
structure StageRecord where
  code : UInt32
  params : Bytes
  data : Bytes
  deriving DecidableEq

namespace StageRecord

/-- The kind of stage behind the code, if it is known. -/
def kind? (r : StageRecord) : Option StageKind := StageKind.ofCode? r.code

/-- Code, length of the parameters, parameters, length of the data, data. -/
def bytes (r : StageRecord) : Outcome Bytes := do
  let paramsLength ← Bytes.ofSize r.params.size
  let dataLength ← Bytes.ofSize r.data.size
  return Bytes.ofUInt32 r.code ++ paramsLength ++ r.params ++ dataLength ++ r.data

/-- Read one entry. -/
def read (c : Cursor) : Outcome (StageRecord × Cursor) := do
  let (code, c) ← c.readUInt32
  let (paramsLength, c) ← c.readUInt32
  let (params, c) ← c.read paramsLength.toNat
  let (dataLength, c) ← c.readUInt32
  let (data, c) ← c.read dataLength.toNat
  return ({ code, params, data }, c)

/-- Read a number of entries. -/
def readMany : Nat → Cursor → Outcome (List StageRecord × Cursor)
  | 0, c => .ok ([], c)
  | count + 1, c => do
    let (record, c) ← read c
    let (records, c) ← readMany count c
    return (record :: records, c)

end StageRecord

structure Blob where
  header : Header
  bytes : Bytes
  deriving DecidableEq

namespace Blob

/-- The blob in a run of bytes. Its constants must lie inside. -/
def ofBytes (bytes : Bytes) : Outcome Blob := do
  let header ← Header.ofBytes bytes
  let stop := header.constOffset.toNat + header.constSize.toNat
  if bytes.size < stop then .error (.codec (.constSectionEnd stop bytes.size))
  else .ok { header, bytes }

def length (b : Blob) : Nat := b.bytes.size

def stageCount (b : Blob) : Nat := b.header.stageCount.toNat

/-- The bytes between the header and the constants. -/
def table (b : Blob) : Outcome Bytes :=
  let stop := b.header.constOffset.toNat
  if Header.size ≤ stop ∧ stop ≤ b.bytes.size then .ok (b.bytes.extract Header.size stop)
  else .error (.codec .stageTable)

/-- The entries of the stage table. What is behind the last one does not matter. -/
def stages (b : Blob) : Outcome (List StageRecord) := do
  let (records, _) ← StageRecord.readMany b.stageCount { bytes := ← b.table }
  return records

/-- The constants. -/
def constSection (b : Blob) : Bytes :=
  let start := b.header.constOffset.toNat
  b.bytes.extract start (start + b.header.constSize.toNat)

end Blob

end NetLower
