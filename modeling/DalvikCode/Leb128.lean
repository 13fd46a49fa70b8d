import DalvikCode.Cursor

/-!
# LEB128 numbers

A number is cut into groups of seven bits, least significant group first, one group to a byte; the
high bit of a byte says that another group follows.  The format admits at most five groups, which
hold 32 bits.  Readers are defined group by group, `k` being the number of groups that may still
follow the next one.
-/

namespace DalvikCode.Leb128

open Reader

/-! ## 1. Readers -/

/-- Reads the rest of an unsigned number that began at `start`.  The fifth group holds the top four
bits, so its byte is at most `0x0f`. -/
def unsignedGroups (start : Nat) : (k : Nat) → Reader Nat
  | 0 => do
    let b ← byte
    if 0x80 ≤ b then malformed (.ulebUnterminated start)
    else if 0x0f < b then malformed (.ulebOutOfRange start)
    else return b
  | k + 1 => do
    let b ← byte
    if b < 0x80 then return b
    else return b % 0x80 + 0x80 * (← unsignedGroups start k)

def unsigned : Reader UInt32 := do
  return UInt32.ofNat (← unsignedGroups (← position) 4)

/-- Reads an unsigned number that has to fit 31 bits. -/
def small : Reader UInt32 := do
  let start ← position
  let n ← unsigned
  if n.toNat < 2 ^ 31 then return n else malformed (.ulebOutOfRange start)

/-- Reads an optional index: zero stands for none, and `n + 1` for index `n`. -/
def index? : Reader (Option UInt32) := do
  let n ← unsigned
  return if n = 0 then none else some (n - 1)

/-- The value of the last group of a signed number, whose bit 6 is the sign. -/
def lastGroup (b : Nat) : Int := twosComplement 7 (b % 0x80)

/-- Reads the rest of a signed number that began at `start`. -/
def signedGroups (start : Nat) : (k : Nat) → Reader Int
  | 0 => do
    let b ← byte
    if 0x80 ≤ b then malformed (.slebUnterminated start) else return lastGroup b
  | k + 1 => do
    let b ← byte
    if b < 0x80 then return lastGroup b
    else return b % 0x80 + 0x80 * (← signedGroups start k)

/-- Reads a signed number; of one that needs more than 32 bits the low 32 bits count. -/
def signed : Reader Int32 := do
  return Int32.ofInt (← signedGroups (← position) 4)

end DalvikCode.Leb128
