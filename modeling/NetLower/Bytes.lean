/-
Bytes of a blob.  Numbers are written low byte first; a cursor reads them back.
-/
import NetLower.Float.Single
import NetLower.Size

namespace NetLower

abbrev Bytes := Array UInt8

namespace Bytes

def ofUInt32 (v : UInt32) : Bytes :=
  #[v.toUInt8, (v >>> 8).toUInt8, (v >>> 16).toUInt8, (v >>> 24).toUInt8]

def ofUInt16 (v : UInt16) : Bytes := #[v.toUInt8, (v >>> 8).toUInt8]

def ofInt32 (v : Int32) : Bytes := ofUInt32 v.toUInt32

def ofF32 (v : F32) : Bytes := ofUInt32 v.bits

/-- A size, which must fit 32 bits. -/
def ofSize (size : Nat) : Outcome Bytes :=
  if size < UInt32.size then .ok (ofUInt32 (UInt32.ofNat size))
  else .error (.codec (.wideValue size))

/-- Sizes one after the other. -/
def ofSizes (sizes : List Nat) : Outcome Bytes :=
  sizes.foldlM (fun bytes size => return bytes ++ (← ofSize size)) #[]

/-- A size, if a buffer can have it. -/
def checkSize (size : Nat) : Outcome Nat :=
  if size ≤ Size.maxBuffer then .ok size else .error (.fault .capacity)

/-- The number in the first four bytes. -/
def toUInt32 (bytes : Bytes) : UInt32 :=
  let byte (k : Nat) : UInt32 := (bytes.getD k 0).toUInt32
  byte 0 ||| byte 1 <<< 8 ||| byte 2 <<< 16 ||| byte 3 <<< 24

end Bytes

/-- A place in a run of bytes. -/
structure Cursor where
  bytes : Bytes
  position : Nat := 0

namespace Cursor

def remaining (c : Cursor) : Nat := c.bytes.size - c.position

/-- The next `count` bytes. -/
def read (c : Cursor) (count : Nat) : Outcome (Bytes × Cursor) :=
  let stop := c.position + count
  if stop ≤ c.bytes.size then
    .ok (c.bytes.extract c.position stop, { c with position := stop })
  else .error (.codec (.readPastEnd count c.position c.bytes.size))

def readUInt32 (c : Cursor) : Outcome (UInt32 × Cursor) := do
  let (word, c) ← c.read 4
  return (word.toUInt32, c)

def readInt32 (c : Cursor) : Outcome (Int32 × Cursor) := do
  let (word, c) ← c.readUInt32
  return (word.toInt32, c)

def readF32 (c : Cursor) : Outcome (F32 × Cursor) := do
  let (word, c) ← c.readUInt32
  return (⟨word⟩, c)

end Cursor

end NetLower
