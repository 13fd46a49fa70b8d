/-!
# Instruction formats

A format fixes how many 16-bit code units an instruction takes and where its operands lie.  Its name
consists of the number of units, the number of registers and a letter for the remaining operand.
Three further formats belong to payloads, the tables that switch and array instructions refer to.
-/

namespace DalvikCode

/-- The formats of instructions that have an opcode of their own. -/
inductive OperandFormat where
  | f10x | f10t | f11n | f11x | f12x
  | f20t | f21c | f21h | f21s | f21t | f22b | f22c | f22s | f22t | f22x | f23x
  | f30t | f31c | f31i | f31t | f32x | f35c | f3rc
  | f45cc | f4rcc
  | f51l
  deriving DecidableEq, Repr, Inhabited

/-- The tables that stand between instructions. -/
inductive PayloadKind where
  | packedSwitch | sparseSwitch | array
  deriving DecidableEq, Repr, Inhabited

/-- The format of an instruction or payload. -/
inductive Format where
  | operands (format : OperandFormat)
  | payload (kind : PayloadKind)
  deriving DecidableEq, Repr, Inhabited

namespace OperandFormat

def all : List OperandFormat :=
  [f10x, f10t, f11n, f11x, f12x, f20t, f21c, f21h, f21s, f21t, f22b, f22c, f22s, f22t, f22x, f23x,
    f30t, f31c, f31i, f31t, f32x, f35c, f3rc, f45cc, f4rcc, f51l]

def name : OperandFormat → String
  | f10x => "10x" | f10t => "10t" | f11n => "11n" | f11x => "11x" | f12x => "12x"
  | f20t => "20t" | f21c => "21c" | f21h => "21h" | f21s => "21s" | f21t => "21t"
  | f22b => "22b" | f22c => "22c" | f22s => "22s" | f22t => "22t" | f22x => "22x"
  | f23x => "23x" | f30t => "30t" | f31c => "31c" | f31i => "31i" | f31t => "31t"
  | f32x => "32x" | f35c => "35c" | f3rc => "3rc" | f45cc => "45cc" | f4rcc => "4rcc"
  | f51l => "51l"

/-- The number of code units of an instruction, which its name starts with. -/
def units : OperandFormat → Nat
  | f10x | f10t | f11n | f11x | f12x => 1
  | f20t | f21c | f21h | f21s | f21t | f22b | f22c | f22s | f22t | f22x | f23x => 2
  | f30t | f31c | f31i | f31t | f32x | f35c | f3rc => 3
  | f45cc | f4rcc => 4
  | f51l => 5

/-- A range of opcodes, both ends included, with the format that they share. -/
structure OpcodeRange where
  first : UInt8
  last : UInt8
  format : OperandFormat
  deriving DecidableEq, Repr

/-- The opcodes in use, in ascending ranges. -/
def opcodeRanges : List OpcodeRange :=
  [⟨0x00, 0x00, f10x⟩, ⟨0x01, 0x01, f12x⟩, ⟨0x02, 0x02, f22x⟩, ⟨0x03, 0x03, f32x⟩,
    ⟨0x04, 0x04, f12x⟩, ⟨0x05, 0x05, f22x⟩, ⟨0x06, 0x06, f32x⟩, ⟨0x07, 0x07, f12x⟩,
    ⟨0x08, 0x08, f22x⟩, ⟨0x09, 0x09, f32x⟩, ⟨0x0a, 0x0d, f11x⟩, ⟨0x0e, 0x0e, f10x⟩,
    ⟨0x0f, 0x11, f11x⟩, ⟨0x12, 0x12, f11n⟩, ⟨0x13, 0x13, f21s⟩, ⟨0x14, 0x14, f31i⟩,
    ⟨0x15, 0x15, f21h⟩, ⟨0x16, 0x16, f21s⟩, ⟨0x17, 0x17, f31i⟩, ⟨0x18, 0x18, f51l⟩,
    ⟨0x19, 0x19, f21h⟩, ⟨0x1a, 0x1a, f21c⟩, ⟨0x1b, 0x1b, f31c⟩, ⟨0x1c, 0x1c, f21c⟩,
    ⟨0x1d, 0x1e, f11x⟩, ⟨0x1f, 0x1f, f21c⟩, ⟨0x20, 0x20, f22c⟩, ⟨0x21, 0x21, f12x⟩,
    ⟨0x22, 0x22, f21c⟩, ⟨0x23, 0x23, f22c⟩, ⟨0x24, 0x24, f35c⟩, ⟨0x25, 0x25, f3rc⟩,
    ⟨0x26, 0x26, f31t⟩, ⟨0x27, 0x27, f11x⟩, ⟨0x28, 0x28, f10t⟩, ⟨0x29, 0x29, f20t⟩,
    ⟨0x2a, 0x2a, f30t⟩, ⟨0x2b, 0x2c, f31t⟩, ⟨0x2d, 0x31, f23x⟩, ⟨0x32, 0x37, f22t⟩,
    ⟨0x38, 0x3d, f21t⟩, ⟨0x44, 0x51, f23x⟩, ⟨0x52, 0x5f, f22c⟩, ⟨0x60, 0x6d, f21c⟩,
    ⟨0x6e, 0x72, f35c⟩, ⟨0x74, 0x78, f3rc⟩, ⟨0x7b, 0x8f, f12x⟩, ⟨0x90, 0xaf, f23x⟩,
    ⟨0xb0, 0xcf, f12x⟩, ⟨0xd0, 0xd7, f22s⟩, ⟨0xd8, 0xe2, f22b⟩, ⟨0xfa, 0xfa, f45cc⟩,
    ⟨0xfb, 0xfb, f4rcc⟩, ⟨0xfc, 0xfc, f35c⟩, ⟨0xfd, 0xfd, f3rc⟩, ⟨0xfe, 0xff, f21c⟩]

/-- The format of the instructions with a given opcode; none for an unused opcode. -/
def ofOpcode? (opcode : UInt8) : Option OperandFormat :=
  (opcodeRanges.find? fun r => r.first ≤ opcode && opcode ≤ r.last).map (·.format)

end OperandFormat

namespace PayloadKind

def all : List PayloadKind := [packedSwitch, sparseSwitch, array]

def name : PayloadKind → String
  | packedSwitch => "packed-switch-payload"
  | sparseSwitch => "sparse-switch-payload"
  | array => "array-payload"

/-- The first code unit of a payload. -/
def ident : PayloadKind → Nat
  | packedSwitch => 0x0100
  | sparseSwitch => 0x0200
  | array => 0x0300

/-- The kind of the payload that starts with a given code unit. -/
def ofIdent? (unit : Nat) : Option PayloadKind := all.find? (·.ident == unit)

theorem ofIdent?_ident (k : PayloadKind) : ofIdent? k.ident = some k := by
  cases k <;> rfl

end PayloadKind

namespace Format

def all : List Format := OperandFormat.all.map operands ++ PayloadKind.all.map payload

def name : Format → String
  | operands f => f.name
  | payload k => k.name

/-- The number of code units of an instruction; a payload has no fixed number. -/
def units? : Format → Option Nat
  | operands f => some f.units
  | payload _ => none

def isPayload : Format → Bool
  | operands _ => false
  | payload _ => true

/-- The format that belongs to an opcode; none for an unused opcode. -/
def ofOpcode? (opcode : UInt8) : Option Format := (OperandFormat.ofOpcode? opcode).map operands

end Format

end DalvikCode
