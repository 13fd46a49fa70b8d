import DalvikCode.Leb128

/-!
# Debug operations

A debug program is a sequence of operations that an end marker closes.  Each is an opcode byte and
its arguments; every opcode from `0x0a` on moves address and line by fixed amounts.
-/

namespace DalvikCode

/-- One operation of a debug program. -/
inductive DebugOp where
  | endSequence
  | advancePc (delta : UInt32)
  | advanceLine (delta : Int32)
  | startLocal (register : UInt32) (name? type? : Option UInt32)
  | startLocalExtended (register : UInt32) (name? type? signature? : Option UInt32)
  | endLocal (register : UInt32)
  | restartLocal (register : UInt32)
  | prologueEnd
  | epilogueBegin
  | setFile (name? : Option UInt32)
  /-- The opcode `0x0a + step`. -/
  | special (step : Fin 246)
  deriving DecidableEq, Repr, Inhabited

namespace DebugOp

/-- How far a special operation moves the address: one code unit for every fifteen steps. -/
def addressAdvance (step : Fin 246) : UInt32 := UInt32.ofNat (step.val / 15)

/-- How far a special operation moves the line: from four lines back to ten lines ahead. -/
def lineAdvance (step : Fin 246) : Int32 := Int32.ofInt ((step.val % 15 : Nat) - 4)

open Reader in
/-- Reads one operation. -/
def read : Reader DebugOp := do
  match ← byte with
  | 0x00 => return .endSequence
  | 0x01 => return .advancePc (← Leb128.small)
  | 0x02 => return .advanceLine (← Leb128.signed)
  | 0x03 => do
    let register ← Leb128.small
    let name? ← Leb128.index?
    return .startLocal register name? (← Leb128.index?)
  | 0x04 => do
    let register ← Leb128.small
    let name? ← Leb128.index?
    let type? ← Leb128.index?
    return .startLocalExtended register name? type? (← Leb128.index?)
  | 0x05 => return .endLocal (← Leb128.small)
  | 0x06 => return .restartLocal (← Leb128.small)
  | 0x07 => return .prologueEnd
  | 0x08 => return .epilogueBegin
  | 0x09 => return .setFile (← Leb128.index?)
  | opcode => return .special (Fin.ofNat 246 (opcode - 0x0a))

end DebugOp

/-- What stands in front of a debug program: its first line, and the names of the parameters. -/
structure DebugHeader where
  lineStart : UInt32
  parameterNames : Array (Option UInt32)
  deriving DecidableEq, Repr, Inhabited

/-- Reads the header of a debug program. -/
def DebugHeader.read : Reader DebugHeader := do
  let lineStart ← Leb128.unsigned
  let count ← Leb128.small
  return { lineStart, parameterNames := ← Reader.times count.toNat Leb128.index? }

end DalvikCode
