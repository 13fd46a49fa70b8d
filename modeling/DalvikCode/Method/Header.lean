import DalvikCode.Bytes

/-!
# Code headers

A method body begins with a header of sixteen bytes.  Behind it stand the instructions, the table of
try blocks, which is aligned to four bytes, and the list of handler records.
-/

namespace DalvikCode

/-- The header of a method body, which stands at `codeOffset`. -/
structure CodeHeader where
  codeOffset : Nat
  registers : UInt16
  ins : UInt16
  outs : UInt16
  tries : UInt16
  debugInfoOffset : UInt32
  codeSize : UInt32
  deriving DecidableEq, Repr, Inhabited

namespace CodeHeader

/-- The number of bytes of a header. -/
def byteSize : Nat := 16

/-- The number of bytes of an entry in the table of try blocks. -/
def tryItemSize : Nat := 8

def read (image : ByteArray) (codeOffset : Nat) : Except DecodeError CodeHeader := do
  unless codeOffset + byteSize ≤ image.size do throw .outOfBounds
  return {
    codeOffset
    registers := ← Bytes.u16At image codeOffset
    ins := ← Bytes.u16At image (codeOffset + 2)
    outs := ← Bytes.u16At image (codeOffset + 4)
    tries := ← Bytes.u16At image (codeOffset + 6)
    debugInfoOffset := ← Bytes.smallAt image (codeOffset + 8)
    codeSize := ← Bytes.smallAt image (codeOffset + 12) }

def instructionsStart (h : CodeHeader) : Nat := h.codeOffset + byteSize

def instructionsStop (h : CodeHeader) : Except DecodeError Nat :=
  checkedOffset (h.instructionsStart + 2 * h.codeSize.toNat)

/-- Where the table of try blocks begins: at the next multiple of four. -/
def triesStart (h : CodeHeader) : Except DecodeError Nat := do
  let aligned ← checkedOffset ((← h.instructionsStop) + 3)
  return aligned / 4 * 4

def handlersStart (h : CodeHeader) : Except DecodeError Nat := do
  checkedOffset ((← h.triesStart) + tryItemSize * h.tries.toNat)

end CodeHeader

end DalvikCode
