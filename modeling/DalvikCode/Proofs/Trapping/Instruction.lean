import DalvikCode.Proofs.Instruction.Decoding
import DalvikCode.Proofs.Trapping.Operations

/-!
# Decoding one instruction on machine words

Fields are shifted out of the first code unit, tables are slices whose bounds are computed, and the
size of an instruction is a difference of positions.  Each definition is the one of the same name
that decodes, with its operations spelled out.
-/

namespace DalvikCode.Trapping

open Instruction

/-! ## 1. Fields -/

/-- A signed word of 64 bits shifted left by `k`; what is shifted out of the word is lost. -/
def shiftLeftSigned (value : Int) (k : Nat) : Except Trap Int64 :=
  if k < 64 then .ok (Int64.ofInt (value * 2 ^ k)) else .error .shift

def scalar (s : Scalar) : Execution Int := s.value <$> number s.width

def u16 : Execution UInt16 := UInt16.ofNat <$> number 2

def u32 : Execution UInt32 := UInt32.ofNat <$> number 4

namespace Agrees

variable {low : Nat}

theorem scalar (s : Scalar) : Agrees low (scalar s) (Reader.scalar s) :=
  (number s.width).map s.value

theorem u16 : Agrees low u16 Reader.u16 := (number 2).map UInt16.ofNat

theorem u32 : Agrees low u32 Reader.u32 := (number 4).map UInt32.ofNat

end Agrees

/-! ## 2. Operands -/

def readRegisterList (offset unit : Nat) : Execution RegisterList := do
  let count ← shiftRight 16 unit 12
  if 5 < count then throw (.failed (.malformedInstruction offset (.registerCount count)))
  let word ← number 2
  let second ← shiftRight 16 word 4
  let third ← shiftRight 16 word 8
  let fourth ← shiftRight 16 word 12
  let fifth ← shiftRight 16 unit 8
  let nibble (n : Nat) : UInt8 := UInt8.ofNat (n % 0x10)
  return .ofSlots #v[nibble word, nibble second, nibble third, nibble fourth, nibble fifth] count

theorem agrees_readRegisterList {low : Nat} (offset unit : Nat) :
    Agrees low (readRegisterList offset unit) (Instruction.readRegisterList offset unit) := by
  refine .operation (shiftRight_of_lt (by decide)) ?_
  -- what follows the check stands in both of its branches; behind the failure it is not reached
  refine .ite _ (.bind (.throw _) fun _ => ?_) ?_
  all_goals
    refine .bind (.number 2) fun word => ?_
    refine .operation (shiftRight_of_lt (by decide)) ?_
    refine .operation (shiftRight_of_lt (by decide)) ?_
    refine .operation (shiftRight_of_lt (by decide)) ?_
    exact .operation (shiftRight_of_lt (by decide)) (.pure _)

-- `high` is the high byte of `unit`, shifted out of it once for all formats.
def readOperands (offset : Nat) (opcode : UInt8) (unit high : Nat) :
    OperandFormat → Execution Operands
  | .f10x => return .none
  | .f10t => return .branch (Int32.ofInt (twosComplement 8 high))
  | .f11n => do
    let literal ← shiftRight 16 unit 12
    return .literal (UInt16.ofNat (high % 0x10)) (Int64.ofInt (twosComplement 4 literal))
  | .f11x => return .register (UInt16.ofNat high)
  | .f12x => do
    let b ← shiftRight 16 unit 12
    return .registerPair (UInt16.ofNat (high % 0x10)) (UInt16.ofNat b)
  | .f20t => return .branch (Int32.ofInt (← scalar .i16))
  | .f21c => return .index (UInt16.ofNat high) (UInt32.ofNat (← number 2))
  | .f21h => do
    let value ← scalar .i16
    return .literal (UInt16.ofNat high) (← shiftLeftSigned value (highHalfShift opcode))
  | .f21s => return .literal (UInt16.ofNat high) (Int64.ofInt (← scalar .i16))
  | .f21t => return .registerBranch (UInt16.ofNat high) (Int32.ofInt (← scalar .i16))
  | .f22b => do
    let b ← number 1
    return .registerPairLiteral (UInt16.ofNat high) (UInt16.ofNat b)
      (Int32.ofInt (← scalar .i8))
  | .f22c => do
    let b ← shiftRight 16 unit 12
    let index ← number 2
    return .registerPairIndex (UInt16.ofNat (high % 0x10)) (UInt16.ofNat b) (UInt32.ofNat index)
  | .f22s => do
    let b ← shiftRight 16 unit 12
    return .registerPairLiteral (UInt16.ofNat (high % 0x10)) (UInt16.ofNat b)
      (Int32.ofInt (← scalar .i16))
  | .f22t => do
    let b ← shiftRight 16 unit 12
    return .registerPairBranch (UInt16.ofNat (high % 0x10)) (UInt16.ofNat b)
      (Int32.ofInt (← scalar .i16))
  | .f22x => return .registerPair (UInt16.ofNat high) (← u16)
  | .f23x => do
    let b ← number 1
    return .registerTriple (UInt16.ofNat high) (UInt16.ofNat b) (UInt16.ofNat (← number 1))
  | .f30t => return .branch (Int32.ofInt (← scalar .i32))
  | .f31c => return .index (UInt16.ofNat high) (← u32)
  | .f31i => return .literal (UInt16.ofNat high) (Int64.ofInt (← scalar .i32))
  | .f31t => return .registerBranch (UInt16.ofNat high) (Int32.ofInt (← scalar .i32))
  | .f32x => do
    let a ← u16
    return .registerPair a (← u16)
  | .f35c => do
    let index ← number 2
    return .invokeList (← readRegisterList offset unit) (UInt32.ofNat index)
  | .f3rc => do
    let index ← number 2
    return .invokeRange (← u16) (UInt16.ofNat high) (UInt32.ofNat index)
  | .f45cc => do
    let index ← number 2
    let registers ← readRegisterList offset unit
    return .polymorphicList registers (UInt32.ofNat index) (← u16)
  | .f4rcc => do
    let index ← number 2
    let first ← u16
    return .polymorphicRange first (UInt16.ofNat high) (UInt32.ofNat index) (← u16)
  | .f51l => return .literal (UInt16.ofNat high) (Int64.ofInt (← scalar .i64))

theorem agrees_readOperands {low : Nat} (offset : Nat) (opcode : UInt8) (unit : Nat)
    (format : OperandFormat) :
    Agrees low (readOperands offset opcode unit (unit / 2 ^ 8) format)
      (Instruction.readOperands offset opcode unit format) := by
  have nibble : shiftRight 16 unit 12 = .ok (unit / 2 ^ 12) := shiftRight_of_lt (by decide)
  cases format with
  | f10x | f10t | f11x => exact .pure _
  | f11n | f12x => exact .operation nibble (.pure _)
  | f20t | f21s | f21t => exact .bind (.scalar .i16) fun _ => .pure _
  | f21c => exact .bind (.number 2) fun _ => .pure _
  | f21h =>
    -- the amount is 16 or 48
    refine .bind (.scalar .i16) fun value => .operation (if_pos ?_) (.pure _)
    rw [highHalfShift]
    split <;> decide
  | f22b => exact .bind (.number 1) fun _ => .bind (.scalar .i8) fun _ => .pure _
  | f22c => exact .operation nibble (.bind (.number 2) fun _ => .pure _)
  | f22s | f22t => exact .operation nibble (.bind (.scalar .i16) fun _ => .pure _)
  | f22x => exact .bind .u16 fun _ => .pure _
  | f23x => exact .bind (.number 1) fun _ => .bind (.number 1) fun _ => .pure _
  | f30t | f31i | f31t => exact .bind (.scalar .i32) fun _ => .pure _
  | f31c => exact .bind .u32 fun _ => .pure _
  | f32x => exact .bind .u16 fun _ => .bind .u16 fun _ => .pure _
  | f35c =>
    exact .bind (.number 2) fun _ => .bind (agrees_readRegisterList offset unit) fun _ => .pure _
  | f3rc => exact .bind (.number 2) fun _ => .bind .u16 fun _ => .pure _
  | f45cc =>
    exact .bind (.number 2) fun _ => .bind (agrees_readRegisterList offset unit) fun _ =>
      .bind .u16 fun _ => .pure _
  | f4rcc => exact .bind (.number 2) fun _ => .bind .u16 fun _ => .bind .u16 fun _ => .pure _
  | f51l => exact .bind (.scalar .i64) fun _ => .pure _

/-! ## 3. Payloads and instructions -/

def readPayload : PayloadKind → Execution Payload
  | .packedSwitch => do
    let size ← number 2
    let firstKey ← scalar .i32
    let length ← mul 64 size 4
    return .packedSwitch (Int32.ofInt firstKey) (← take length)
  | .sparseSwitch => do
    let size ← number 2
    let length ← mul 64 size 4
    let keys ← take length
    let length ← mul 64 size 4
    return .sparseSwitch keys (← take length)
  | .array => do
    let elementWidth ← u16
    let elementCount ← u32
    match checkedMul elementWidth.toNat elementCount.toNat with
    | none => throw (.failed .outOfBounds)
    | some length => do
      let data ← take length
      if length % 2 ≠ 0 then skip 1
      return .array elementWidth elementCount data

def readBody (offset unit : Nat) : Execution (Format × Operands) := do
  let high ← shiftRight 16 unit 8
  let opcode := UInt8.ofNat unit
  match OperandFormat.ofOpcode? opcode with
  | none => throw (.failed (.malformedInstruction offset (.unusedOpcode opcode)))
  | some format =>
    if opcode = 0 ∧ high ≠ 0 then
      match PayloadKind.ofIdent? unit with
      | none => throw (.failed (.malformedInstruction offset (.unknownPayload unit)))
      | some kind => return (.payload kind, .payload (← readPayload kind))
    else return (.operands format, ← readOperands offset opcode unit high format)

def decode (address : UInt32) : Execution Instruction := do
  let offset ← position
  let unit ← number 2
  let (format, operands) ← readBody offset unit
  let stop ← position
  let length ← sub stop offset
  return { offset, address, format, operands, opcode := UInt8.ofNat unit, size := length / 2 }

theorem agrees_readPayload {low : Nat} (kind : PayloadKind) :
    Agrees low (readPayload kind) (Instruction.readPayload kind) := by
  -- a table of four bytes for each of a 16-bit number of entries
  have size_lt : ∀ c c' n, Reader.number 2 c = .ok n c' → n < 256 ^ 2 := fun _ _ _ =>
    Reader.lt_of_number
  cases kind with
  | packedSwitch =>
    refine .bind_of _ (.number 2) size_lt fun size lt => ?_
    refine .bind (.scalar .i32) fun firstKey => .operation (mul_of_lt (by omega)) ?_
    rw [Nat.mul_comm]
    exact .bind (.take _) fun _ => .pure _
  | sparseSwitch =>
    refine .bind_of _ (.number 2) size_lt fun size lt => .operation (mul_of_lt (by omega)) ?_
    rw [Nat.mul_comm]
    refine .bind (.take _) fun keys => .operation (mul_of_lt (by omega)) ?_
    rw [Nat.mul_comm]
    exact .bind (.take _) fun _ => .pure _
  | array =>
    refine .bind .u16 fun elementWidth => .bind .u32 fun elementCount => ?_
    -- the check never fails: a product of 16 and 32 bits has 48
    have width_lt := elementWidth.toNat_lt
    have count_lt := elementCount.toNat_lt
    have word : elementWidth.toNat * elementCount.toNat < 2 ^ 64 :=
      calc elementWidth.toNat * elementCount.toNat ≤ 2 ^ 16 * 2 ^ 32 :=
            Nat.mul_le_mul (Nat.le_of_lt width_lt) (Nat.le_of_lt count_lt)
        _ < 2 ^ 64 := by decide
    rw [checkedMul, if_pos word]
    refine .bind (.take _) fun data => ?_
    -- the padding is skipped under a condition here, and by its length where the reader does it
    by_cases even : elementWidth.toNat * elementCount.toNat % 2 = 0
    · rw [if_neg (not_not_intro even)]
      show Agrees low _ (Reader.skip _ >>= fun _ => _)
      rw [even]
      exact .bind .skip_zero fun _ => .pure _
    · rw [if_pos even]
      show Agrees low _ (Reader.skip _ >>= fun _ => _)
      rw [Nat.mod_two_ne_zero.mp even]
      exact .bind (.skip 1) fun _ => .pure _

theorem agrees_readBody {low : Nat} (offset unit : Nat) :
    Agrees low (readBody offset unit) (Instruction.readBody offset unit) := by
  refine .operation (shiftRight_of_lt (by decide)) ?_
  simp only [Instruction.readBody]
  cases OperandFormat.ofOpcode? (UInt8.ofNat unit) with
  | none => exact .throw _
  | some format =>
    -- with a low byte of zero, the high byte is zero only if the unit is
    have payload : UInt8.ofNat unit = 0 ∧ unit / 2 ^ 8 ≠ 0 ↔ UInt8.ofNat unit = 0 ∧ unit ≠ 0 := by
      refine and_congr_right fun zero => not_congr ?_
      have low_byte := congrArg UInt8.toNat zero
      rw [UInt8.toNat_ofNat'] at low_byte
      change unit % 2 ^ 8 = 0 at low_byte
      omega
    simp only [payload]
    refine .ite _ ?_ (.bind (agrees_readOperands offset _ unit format) fun _ => .pure _)
    cases PayloadKind.ofIdent? unit with
    | none => exact .throw _
    | some kind => exact .bind (agrees_readPayload kind) fun _ => .pure _

-- A decoder does not move back, so an instruction has a size.
theorem agrees_decode {low : Nat} (address : UInt32) :
    Agrees low (decode address) (Instruction.decode address) := by
  refine .here fun offset _ => .bind (.number 2) fun unit => ?_
  refine .bind (agrees_readBody offset unit) fun body => .here fun stop le => ?_
  exact .operation (sub_of_le le) (.pure _)

end DalvikCode.Trapping
