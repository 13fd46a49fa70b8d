import DalvikCode.Instruction.Decode

/-!
# Writing instructions

The bytes of an instruction, given its opcode, format and operands.  Bits that carry no operand are
written as zero.  `Fits` says which operands a format can hold.
-/

namespace DalvikCode

/-- Whether an integer fits a two's-complement field. -/
def FitsSigned (bits : Nat) (z : Int) : Prop :=
  -(2 ^ (bits - 1) : Nat) ≤ z ∧ z < (2 ^ (bits - 1) : Nat)

instance (bits : Nat) (z : Int) : Decidable (FitsSigned bits z) :=
  inferInstanceAs (Decidable (_ ∧ _))

/-- The two's-complement form of an integer in a field of `bits` bits. -/
def signedField (bits : Nat) (z : Int) : Nat := (z % (2 ^ bits : Nat)).toNat

/-- Two fields of four bits in one byte, the low one first. -/
def nibbles (low high : Nat) : Nat := low + 0x10 * high

/-! ## 1. Register lists -/

namespace RegisterList

/-- Whether every slot fits four bits. -/
def Fits (l : RegisterList) : Prop := ∀ r ∈ l.slots.toList, r.toNat < 0x10

instance (l : RegisterList) : Decidable l.Fits := inferInstanceAs (Decidable (∀ r ∈ _, _))

/-- The high byte of the first code unit: the last slot and the count. -/
def firstField (l : RegisterList) : Nat := nibbles l.slots[4].toNat l.count

/-- The code unit with the other slots. -/
def slotBytes (l : RegisterList) : List UInt8 :=
  [UInt8.ofNat (nibbles l.slots[0].toNat l.slots[1].toNat),
    UInt8.ofNat (nibbles l.slots[2].toNat l.slots[3].toNat)]

end RegisterList

/-! ## 2. Operands -/

namespace Operands

/-- What a literal with zeros below its field is a multiple of: its field holds the highest sixteen
bits, out of 64 for the opcode `0x19` and out of 32 for the other one. -/
def highUnit (opcode : UInt8) : Int := if opcode = 0x19 then 2 ^ 48 else 2 ^ 16

/-- Whether a format has fields for the operands, and the fields are wide enough. -/
def Fits (opcode : UInt8) : OperandFormat → Operands → Prop
  | .f10x, .none => True
  | .f10t, .branch offset => FitsSigned 8 offset.toInt
  | .f11n, .literal a value => a < 0x10 ∧ FitsSigned 4 value.toInt
  | .f11x, .register a => a < 0x100
  | .f12x, .registerPair a b => a < 0x10 ∧ b < 0x10
  | .f20t, .branch offset => FitsSigned 16 offset.toInt
  | .f21c, .index a idx => a < 0x100 ∧ idx < 0x10000
  | .f21h, .literal a value =>
    a < 0x100 ∧ value.toInt % highUnit opcode = 0 ∧
      FitsSigned 16 (value.toInt / highUnit opcode)
  | .f21s, .literal a value => a < 0x100 ∧ FitsSigned 16 value.toInt
  | .f21t, .registerBranch a offset => a < 0x100 ∧ FitsSigned 16 offset.toInt
  | .f22b, .registerPairLiteral a b value => a < 0x100 ∧ b < 0x100 ∧ FitsSigned 8 value.toInt
  | .f22c, .registerPairIndex a b idx => a < 0x10 ∧ b < 0x10 ∧ idx < 0x10000
  | .f22s, .registerPairLiteral a b value => a < 0x10 ∧ b < 0x10 ∧ FitsSigned 16 value.toInt
  | .f22t, .registerPairBranch a b offset => a < 0x10 ∧ b < 0x10 ∧ FitsSigned 16 offset.toInt
  | .f22x, .registerPair a _ => a < 0x100
  | .f23x, .registerTriple a b c => a < 0x100 ∧ b < 0x100 ∧ c < 0x100
  | .f30t, .branch _ => True
  | .f31c, .index a _ => a < 0x100
  | .f31i, .literal a value => a < 0x100 ∧ FitsSigned 32 value.toInt
  | .f31t, .registerBranch a _ => a < 0x100
  | .f32x, .registerPair _ _ => True
  | .f35c, .invokeList registers idx => registers.Fits ∧ idx < 0x10000
  | .f3rc, .invokeRange _ count idx => count < 0x100 ∧ idx < 0x10000
  | .f45cc, .polymorphicList registers idx _ => registers.Fits ∧ idx < 0x10000
  | .f4rcc, .polymorphicRange _ count idx _ => count < 0x100 ∧ idx < 0x10000
  | .f51l, .literal a _ => a < 0x100
  | _, _ => False

instance (opcode : UInt8) (format : OperandFormat) (operands : Operands) :
    Decidable (Fits opcode format operands) := by
  unfold Fits; split <;> infer_instance

/-- The high byte of the first code unit, and the bytes that follow that unit; none if the format
has no fields for the operands. -/
def fields? (opcode : UInt8) : OperandFormat → Operands → Option (Nat × List UInt8)
  | .f10x, .none => some (0, [])
  | .f10t, .branch offset => some (signedField 8 offset.toInt, [])
  | .f11n, .literal a value => some (nibbles a.toNat (signedField 4 value.toInt), [])
  | .f11x, .register a => some (a.toNat, [])
  | .f12x, .registerPair a b => some (nibbles a.toNat b.toNat, [])
  | .f20t, .branch offset => some (0, Bytes.ofSigned 2 offset.toInt)
  | .f21c, .index a idx => some (a.toNat, Bytes.ofNumber 2 idx.toNat)
  | .f21h, .literal a value =>
    some (a.toNat, Bytes.ofSigned 2 (value.toInt / highUnit opcode))
  | .f21s, .literal a value => some (a.toNat, Bytes.ofSigned 2 value.toInt)
  | .f21t, .registerBranch a offset => some (a.toNat, Bytes.ofSigned 2 offset.toInt)
  | .f22b, .registerPairLiteral a b value =>
    some (a.toNat, Bytes.ofNumber 1 b.toNat ++ Bytes.ofSigned 1 value.toInt)
  | .f22c, .registerPairIndex a b idx =>
    some (nibbles a.toNat b.toNat, Bytes.ofNumber 2 idx.toNat)
  | .f22s, .registerPairLiteral a b value =>
    some (nibbles a.toNat b.toNat, Bytes.ofSigned 2 value.toInt)
  | .f22t, .registerPairBranch a b offset =>
    some (nibbles a.toNat b.toNat, Bytes.ofSigned 2 offset.toInt)
  | .f22x, .registerPair a b => some (a.toNat, Bytes.ofNumber 2 b.toNat)
  | .f23x, .registerTriple a b c =>
    some (a.toNat, Bytes.ofNumber 1 b.toNat ++ Bytes.ofNumber 1 c.toNat)
  | .f30t, .branch offset => some (0, Bytes.ofSigned 4 offset.toInt)
  | .f31c, .index a idx => some (a.toNat, Bytes.ofNumber 4 idx.toNat)
  | .f31i, .literal a value => some (a.toNat, Bytes.ofSigned 4 value.toInt)
  | .f31t, .registerBranch a offset => some (a.toNat, Bytes.ofSigned 4 offset.toInt)
  | .f32x, .registerPair a b => some (0, Bytes.ofNumber 2 a.toNat ++ Bytes.ofNumber 2 b.toNat)
  | .f35c, .invokeList registers idx =>
    some (registers.firstField, Bytes.ofNumber 2 idx.toNat ++ registers.slotBytes)
  | .f3rc, .invokeRange first count idx =>
    some (count.toNat, Bytes.ofNumber 2 idx.toNat ++ Bytes.ofNumber 2 first.toNat)
  | .f45cc, .polymorphicList registers idx proto =>
    some (registers.firstField,
      Bytes.ofNumber 2 idx.toNat ++ registers.slotBytes ++ Bytes.ofNumber 2 proto.toNat)
  | .f4rcc, .polymorphicRange first count idx proto =>
    some (count.toNat,
      Bytes.ofNumber 2 idx.toNat ++ Bytes.ofNumber 2 first.toNat ++ Bytes.ofNumber 2 proto.toNat)
  | .f51l, .literal a value => some (a.toNat, Bytes.ofSigned 8 value.toInt)
  | _, _ => Option.none

end Operands

/-! ## 3. Payloads -/

namespace Payload

/-- Whether the tables of a payload agree with each other and their sizes fit their fields. -/
def Fits : Payload → Prop
  | packedSwitch _ targets => targets.size % 4 = 0 ∧ targets.size / 4 < 0x10000
  | sparseSwitch keys targets =>
    keys.size % 4 = 0 ∧ keys.size / 4 < 0x10000 ∧ targets.size = keys.size
  | array elementWidth elementCount data =>
    data.size = elementWidth.toNat * elementCount.toNat

instance (p : Payload) : Decidable p.Fits := by
  unfold Fits; split <;> infer_instance

/-- The bytes of a payload; array data is filled up with a zero to a whole code unit. -/
def encode : Payload → List UInt8
  | packedSwitch firstKey targets =>
    Bytes.ofNumber 2 0x0100 ++ Bytes.ofNumber 2 (targets.size / 4) ++
      Bytes.ofSigned 4 firstKey.toInt ++ targets.data.toList
  | sparseSwitch keys targets =>
    Bytes.ofNumber 2 0x0200 ++ Bytes.ofNumber 2 (keys.size / 4) ++ keys.data.toList ++
      targets.data.toList
  | array elementWidth elementCount data =>
    Bytes.ofNumber 2 0x0300 ++ Bytes.ofNumber 2 elementWidth.toNat ++
      Bytes.ofNumber 4 elementCount.toNat ++ data.data.toList ++ List.replicate (data.size % 2) 0

end Payload

/-! ## 4. Instructions -/

namespace Instruction

/-- Whether opcode, format and operands belong together and can be written. -/
def Encodable (opcode : UInt8) : Format → Operands → Prop
  | .operands format, operands =>
    OperandFormat.ofOpcode? opcode = some format ∧ operands.Fits opcode format
  | .payload kind, .payload table => opcode = 0 ∧ table.kind = kind ∧ table.Fits
  | .payload _, _ => False

instance (opcode : UInt8) (format : Format) (operands : Operands) :
    Decidable (Encodable opcode format operands) := by
  unfold Encodable; split <;> infer_instance

/-- The bytes of an instruction; none if the format has no fields for the operands. -/
def encode? (opcode : UInt8) : Format → Operands → Option (List UInt8)
  | .operands format, operands => do
    let (high, rest) ← operands.fields? opcode format
    return opcode :: UInt8.ofNat high :: rest
  | .payload _, .payload table => some table.encode
  | .payload _, _ => none

end Instruction

end DalvikCode
