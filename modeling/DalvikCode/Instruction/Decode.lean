import DalvikCode.Cursor
import DalvikCode.Instruction.Basic

/-!
# Decoding one instruction

The first code unit holds the opcode in its low byte.  The high byte belongs to the operands, except
that a no-operation with a non-zero high byte is the start of a payload.  What is found invalid is
reported at the offset of the instruction, as soon as the bytes that show it have been read.
-/

namespace DalvikCode

/-- A decoder reads one instruction, whose address it is given. -/
abbrev InstructionDecoder := UInt32 → Reader Instruction

namespace Instruction

open Reader

/-! ## 1. Fields of the first code unit -/

def highByte (unit : Nat) : UInt16 := UInt16.ofNat (unit / 0x100)

/-- The low four bits of the high byte of a code unit. -/
def lowNibble (unit : Nat) : UInt16 := UInt16.ofNat (unit / 0x100 % 0x10)

/-- The high four bits of the high byte of a code unit. -/
def highNibble (unit : Nat) : UInt16 := UInt16.ofNat (unit / 0x1000)

/-! ## 2. Operands -/

/-- Reads the five slots of a register list, four of them from the next code unit and the last one
from the first code unit, which also holds the count. -/
def readRegisterList (offset unit : Nat) : Reader RegisterList := do
  let count := unit / 0x1000
  if 5 < count then throw (.malformedInstruction offset (.registerCount count))
  let word ← number 2
  let nibble (n : Nat) : UInt8 := UInt8.ofNat (n % 0x10)
  return .ofSlots
    #v[nibble word, nibble (word / 0x10), nibble (word / 0x100), nibble (word / 0x1000),
      nibble (unit / 0x100)] count

/-- The number of bits that a high-half literal is shifted by: it sets the top half of a register
pair for opcode `0x19`, and of a single register otherwise. -/
def highHalfShift (opcode : UInt8) : Nat := if opcode = 0x19 then 48 else 16

/-- Reads the operands of an instruction whose first code unit is `unit`. -/
def readOperands (offset : Nat) (opcode : UInt8) (unit : Nat) : OperandFormat → Reader Operands
  | .f10x => return .none
  | .f10t => return .branch (Int32.ofInt (twosComplement 8 (unit / 0x100)))
  | .f11n => return .literal (lowNibble unit) (Int64.ofInt (twosComplement 4 (unit / 0x1000)))
  | .f11x => return .register (highByte unit)
  | .f12x => return .registerPair (lowNibble unit) (highNibble unit)
  | .f20t => return .branch (Int32.ofInt (← i16))
  | .f21c => return .index (highByte unit) (UInt32.ofNat (← number 2))
  | .f21h => return .literal (highByte unit) (Int64.ofInt ((← i16) * 2 ^ highHalfShift opcode))
  | .f21s => return .literal (highByte unit) (Int64.ofInt (← i16))
  | .f21t => return .registerBranch (highByte unit) (Int32.ofInt (← i16))
  | .f22b => do
    let b ← byte
    return .registerPairLiteral (highByte unit) (UInt16.ofNat b) (Int32.ofInt (← i8))
  | .f22c => do
    let index ← number 2
    return .registerPairIndex (lowNibble unit) (highNibble unit) (UInt32.ofNat index)
  | .f22s => return .registerPairLiteral (lowNibble unit) (highNibble unit) (Int32.ofInt (← i16))
  | .f22t => return .registerPairBranch (lowNibble unit) (highNibble unit) (Int32.ofInt (← i16))
  | .f22x => return .registerPair (highByte unit) (← u16)
  | .f23x => do
    let b ← byte
    return .registerTriple (highByte unit) (UInt16.ofNat b) (UInt16.ofNat (← byte))
  | .f30t => return .branch (Int32.ofInt (← i32))
  | .f31c => return .index (highByte unit) (← u32)
  | .f31i => return .literal (highByte unit) (Int64.ofInt (← i32))
  | .f31t => return .registerBranch (highByte unit) (Int32.ofInt (← i32))
  | .f32x => do
    let a ← u16
    return .registerPair a (← u16)
  | .f35c => do
    let index ← number 2
    return .invokeList (← readRegisterList offset unit) (UInt32.ofNat index)
  | .f3rc => do
    let index ← number 2
    return .invokeRange (← u16) (highByte unit) (UInt32.ofNat index)
  | .f45cc => do
    let index ← number 2
    let registers ← readRegisterList offset unit
    return .polymorphicList registers (UInt32.ofNat index) (← u16)
  | .f4rcc => do
    let index ← number 2
    let first ← u16
    return .polymorphicRange first (highByte unit) (UInt32.ofNat index) (← u16)
  | .f51l => return .literal (highByte unit) (Int64.ofInt (← i64))

/-! ## 3. Payloads -/

/-- Reads a payload behind its first code unit.  Array data is filled up to a whole code unit. -/
def readPayload : PayloadKind → Reader Payload
  | .packedSwitch => do
    let size ← number 2
    let firstKey ← i32
    return .packedSwitch (Int32.ofInt firstKey) (← take (4 * size))
  | .sparseSwitch => do
    let size ← number 2
    let keys ← take (4 * size)
    return .sparseSwitch keys (← take (4 * size))
  | .array => do
    let elementWidth ← u16
    let elementCount ← u32
    let length := elementWidth.toNat * elementCount.toNat
    let data ← take length
    skip (length % 2)
    return .array elementWidth elementCount data

/-! ## 4. Instructions -/

/-- Reads what follows the first code unit of an instruction that starts at `offset`. -/
def readBody (offset unit : Nat) : Reader (Format × Operands) := do
  let opcode := UInt8.ofNat unit
  match OperandFormat.ofOpcode? opcode with
  | none => throw (.malformedInstruction offset (.unusedOpcode opcode))
  | some format =>
    if opcode = 0 ∧ unit ≠ 0 then
      match PayloadKind.ofIdent? unit with
      | none => throw (.malformedInstruction offset (.unknownPayload unit))
      | some kind => return (.payload kind, .payload (← readPayload kind))
    else return (.operands format, ← readOperands offset opcode unit format)

/-- Reads the instruction under the cursor, which stands at the given address of its method. -/
def decode : InstructionDecoder := fun address => do
  let offset ← position
  let unit ← number 2
  let (format, operands) ← readBody offset unit
  let stop ← position
  return {
    offset, address, format, operands
    opcode := UInt8.ofNat unit
    size := (stop - offset) / 2 }

end Instruction

end DalvikCode
