import DalvikCode.Bytes
import DalvikCode.Instruction.Format

/-!
# Instructions

The decoded form of an instruction: where it stands, its opcode and format, and its operands.
Payload tables are kept as the bytes of the image and read on demand.
-/

namespace DalvikCode

/-! ## 1. Register lists -/

/-- The registers of a call with up to five arguments.  All five slots are encoded; the first
`count` of them are arguments. -/
structure RegisterList where
  slots : Vector UInt8 5
  count : Nat
  count_le : count ≤ 5 := by omega
  deriving DecidableEq, Repr

namespace RegisterList

/-- The list of the first `count` slots; no list is longer than five. -/
def ofSlots (slots : Vector UInt8 5) (count : Nat) : RegisterList :=
  { slots, count := min count 5 }

def empty : RegisterList := ofSlots (Vector.replicate 5 0) 0

instance : Inhabited RegisterList := ⟨empty⟩

/-- The registers of the call, in order. -/
def toList (l : RegisterList) : List UInt8 := l.slots.toList.take l.count

@[simp] theorem length_toList (l : RegisterList) : l.toList.length = l.count := by
  rw [toList, List.length_take, Vector.length_toList, Nat.min_eq_left l.count_le]

def isEmpty (l : RegisterList) : Bool := l.count == 0

end RegisterList

/-! ## 2. Payloads -/

/-- A table that a switch or array instruction refers to.  Keys and targets are 32-bit words. -/
inductive Payload where
  /-- Consecutive keys from `firstKey` on. -/
  | packedSwitch (firstKey : Int32) (targets : ByteArray)
  /-- One key for each target. -/
  | sparseSwitch (keys targets : ByteArray)
  /-- `elementCount` elements of `elementWidth` bytes each. -/
  | array (elementWidth : UInt16) (elementCount : UInt32) (data : ByteArray)
  deriving DecidableEq

namespace Payload

def kind : Payload → PayloadKind
  | packedSwitch .. => .packedSwitch
  | sparseSwitch .. => .sparseSwitch
  | array .. => .array

def targets : Payload → ByteArray
  | packedSwitch _ targets | sparseSwitch _ targets => targets
  | array .. => .empty

/-- The bytes of the keys that are spelled out. -/
def keys : Payload → ByteArray
  | sparseSwitch keys _ => keys
  | _ => .empty

/-- The key from which those that are not spelled out are counted. -/
def firstKey : Payload → Int32
  | packedSwitch firstKey _ => firstKey
  | _ => 0

/-- The key of the `i`-th entry: the word in the key table, else counted from the first key. -/
def key (p : Payload) (i : Nat) : Int32 :=
  if 4 * i + 4 ≤ p.keys.size then Bytes.i32 p.keys (4 * i) else p.firstKey + Int32.ofNat i

/-- Keys and branch offsets of a switch, one pair for each whole word in the target table. -/
def switchEntries (p : Payload) : List (Int32 × Int32) :=
  (List.range (p.targets.size / 4)).map fun i => (p.key i, Bytes.i32 p.targets (4 * i))

@[simp] theorem length_switchEntries (p : Payload) :
    p.switchEntries.length = p.targets.size / 4 := by
  rw [switchEntries, List.length_map, List.length_range]

/-- The bytes of the `i`-th array element, if the data holds all of them. -/
def element? : Payload → Nat → Option ByteArray
  | array elementWidth _ data, i =>
    (Bytes.slice data (i * elementWidth.toNat) elementWidth.toNat).toOption
  | _, _ => none

end Payload

/-! ## 3. Operands and instructions -/

/-- The operands of an instruction.  Registers are `a`, `b`, `c`, branch offsets count code units
from the start of the instruction, and indices refer to the tables of the image. -/
inductive Operands where
  | none
  | register (a : UInt16)
  | registerPair (a b : UInt16)
  | registerTriple (a b c : UInt16)
  | literal (a : UInt16) (value : Int64)
  | registerPairLiteral (a b : UInt16) (value : Int32)
  | branch (offset : Int32)
  | registerBranch (a : UInt16) (offset : Int32)
  | registerPairBranch (a b : UInt16) (offset : Int32)
  | index (a : UInt16) (index : UInt32)
  | registerPairIndex (a b : UInt16) (index : UInt32)
  | invokeList (registers : RegisterList) (index : UInt32)
  | invokeRange (first count : UInt16) (index : UInt32)
  | polymorphicList (registers : RegisterList) (index : UInt32) (proto : UInt16)
  | polymorphicRange (first count : UInt16) (index : UInt32) (proto : UInt16)
  | payload (table : Payload)
  deriving DecidableEq, Inhabited

def Operands.branchOffset? : Operands → Option Int32
  | branch offset | registerBranch _ offset | registerPairBranch _ _ offset => some offset
  | _ => Option.none

/-- A decoded instruction: `offset` is its place in the image in bytes, `address` its place in the
method in code units, and `size` its length in code units. -/
structure Instruction where
  offset : Nat
  address : UInt32
  opcode : UInt8
  format : Format
  size : Nat
  operands : Operands
  deriving DecidableEq, Inhabited

namespace Instruction

def byteLength (i : Instruction) : Nat := 2 * i.size

def nextAddress (i : Instruction) : Nat := i.address.toNat + i.size

def isPayload (i : Instruction) : Bool := i.format.isPayload

/-- The address that a branch goes to, if it is an address at all. -/
def branchTarget? (i : Instruction) : Option UInt32 := do
  let target := (i.address.toNat : Int) + (← i.operands.branchOffset?).toInt
  if 0 ≤ target ∧ target < 2 ^ 32 then some (UInt32.ofNat target.toNat) else none

end Instruction

end DalvikCode
