import DalvikCode.Leb128.Encoding
import DalvikCode.Method.Header

/-!
# Writing code items

A `CodeItem` is a method body in terms of its parts, and `CodeItem.encode` lays it out: header, code
units, zeros up to a multiple of four in the image, try items, and the list of handler records,
which starts with the number of records.
-/

namespace DalvikCode

/-- The handlers of one or more try blocks: pairs of a type and an address, then the address of a
catch-all. -/
structure HandlerRecord where
  typed : List (UInt32 × UInt32)
  catchAll? : Option UInt32
  deriving DecidableEq, Repr, Inhabited

namespace HandlerRecord

/-- The size that a record declares, which is not positive if a catch-all follows. -/
def size (r : HandlerRecord) : Int :=
  if r.catchAll?.isSome then -(r.typed.length : Int) else r.typed.length

def encode (r : HandlerRecord) : List UInt8 :=
  Leb128.ofSigned r.size ++
    r.typed.flatMap (fun h => Leb128.ofUnsigned h.1.toNat ++ Leb128.ofUnsigned h.2.toNat) ++
    r.catchAll?.toList.flatMap (fun address => Leb128.ofUnsigned address.toNat)

end HandlerRecord

/-- A try block that names its handler record by number. -/
structure TryEntry where
  start : UInt32
  unitCount : UInt16
  record : Nat
  deriving DecidableEq, Repr, Inhabited

/-- The parts of a method body. -/
structure CodeItem where
  registers : UInt16
  ins : UInt16
  outs : UInt16
  debugInfoOffset : UInt32
  units : List UInt16
  tries : List TryEntry
  records : List HandlerRecord
  deriving DecidableEq, Repr, Inhabited

namespace CodeItem

def headerBytes (c : CodeItem) : List UInt8 :=
  Bytes.ofNumber 2 c.registers.toNat ++ Bytes.ofNumber 2 c.ins.toNat ++
    Bytes.ofNumber 2 c.outs.toNat ++ Bytes.ofNumber 2 c.tries.length ++
    Bytes.ofNumber 4 c.debugInfoOffset.toNat ++ Bytes.ofNumber 4 c.units.length

def unitBytes (c : CodeItem) : List UInt8 := c.units.flatMap fun unit => Bytes.ofNumber 2 unit.toNat

/-- The number of zeros in front of the try items of an item that stands at `offset`. -/
def padding (c : CodeItem) (offset : Nat) : Nat :=
  (4 - (offset + CodeHeader.byteSize + 2 * c.units.length) % 4) % 4

/-- The bytes of the number of handler records and of the first `n` of these records. -/
def recordBytes (c : CodeItem) (n : Nat) : List UInt8 :=
  Leb128.ofUnsigned c.records.length ++ (c.records.take n).flatMap HandlerRecord.encode

/-- Where a record begins, counted from the start of the list of handler records. -/
def recordOffset (c : CodeItem) (record : Nat) : Nat := (c.recordBytes record).length

def tryBytes (c : CodeItem) (entry : TryEntry) : List UInt8 :=
  Bytes.ofNumber 4 entry.start.toNat ++ Bytes.ofNumber 2 entry.unitCount.toNat ++
    Bytes.ofNumber 2 (c.recordOffset entry.record)

def encode (c : CodeItem) (offset : Nat) : List UInt8 :=
  c.headerBytes ++ c.unitBytes ++
    if c.tries.isEmpty then []
    else List.replicate (c.padding offset) 0 ++ c.tries.flatMap c.tryBytes ++
      c.recordBytes c.records.length

end CodeItem

end DalvikCode
