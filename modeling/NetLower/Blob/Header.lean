/-
The header of a blob: ten 32-bit words.
-/
import NetLower.Bytes

namespace NetLower

structure Header where
  magic : UInt32 := 0x42555056
  version : UInt32 := 1
  headerSize : UInt32 := 40
  stageCount : UInt32 := 0
  constOffset : UInt32 := 0
  constSize : UInt32 := 0
  bssSize : UInt32 := 0
  inputSize : UInt32 := 0
  outputSize : UInt32 := 0
  reserved : UInt32 := 0
  deriving DecidableEq, Repr

namespace Header

/-- The bytes a header takes up. -/
def size : Nat := 40

/-- The word that every blob starts with. -/
def expectedMagic : UInt32 := 0x42555056

/-- The version that can be read. -/
def expectedVersion : UInt32 := 1

/-- The fields in the order in which they are stored. -/
def words (h : Header) : List UInt32 :=
  [h.magic, h.version, h.headerSize, h.stageCount, h.constOffset, h.constSize, h.bssSize,
    h.inputSize, h.outputSize, h.reserved]

def bytes (h : Header) : Bytes := h.words.foldl (fun bytes w => bytes ++ Bytes.ofUInt32 w) #[]

/-- The word with an index among the words of a run of bytes. -/
def wordAt (bytes : Bytes) (index : Nat) : UInt32 :=
  Bytes.toUInt32 (bytes.extract (4 * index) (4 * index + 4))

/-- The header at the front of a blob. -/
def ofBytes (bytes : Bytes) : Outcome Header :=
  if bytes.size < size then .error (.codec (.shortHeader bytes.size))
  else
    let h : Header :=
      { magic := wordAt bytes 0
        version := wordAt bytes 1
        headerSize := wordAt bytes 2
        stageCount := wordAt bytes 3
        constOffset := wordAt bytes 4
        constSize := wordAt bytes 5
        bssSize := wordAt bytes 6
        inputSize := wordAt bytes 7
        outputSize := wordAt bytes 8
        reserved := wordAt bytes 9 }
    if h.magic ≠ expectedMagic then .error (.codec (.magic h.magic))
    else if h.version ≠ expectedVersion then .error (.codec (.version h.version))
    else .ok h

end Header

end NetLower
