import DalvikCode.Hex

/-!
# Decoding failures

`Malformation` names what is wrong with the bytes of an image, `DecodeError` names how an operation
fails.  Both are causes; their wording is `Malformation.message` and `DecodeError.message`.
-/

namespace DalvikCode

/-- What is wrong with bytes that are present. -/
inductive Malformation where
  /-- An unsigned LEB128 number still continues after its fifth byte. -/
  | ulebUnterminated (start : Nat)
  /-- An unsigned LEB128 number needs more bits than its reader admits. -/
  | ulebOutOfRange (start : Nat)
  /-- A signed LEB128 number still continues after its fifth byte. -/
  | slebUnterminated (start : Nat)
  /-- A 32-bit field that may only hold 31 bits has its top bit set. -/
  | smallFieldOutOfRange (offset : Nat)
  /-- A try block reaches past the code units of its method. -/
  | tryRangeOutsideCode (index : Nat) (start : UInt32) (unitCount : UInt16) (codeSize : UInt32)
  /-- A handler record declares more typed handlers than the limits admit. -/
  | tooManyHandlers (record declared : Nat)
  /-- A debug program emits more items than the limits admit. -/
  | tooManyDebugItems (limit : Nat)
  /-- No instruction has this opcode. -/
  | unusedOpcode (opcode : UInt8)
  /-- A register list declares more than five registers. -/
  | registerCount (count : Nat)
  /-- A pseudo instruction starts with a unit that names no payload. -/
  | unknownPayload (ident : Nat)
  /-- An instruction crosses the end of its stream; its size is given where it is known. -/
  | crossesEnd (size : Option Nat) (stop : Nat)
  /-- A decoder succeeded without moving forward. -/
  | noProgress
  /-- A defect in the words of a decoder that the caller supplied. -/
  | described (message : String)
  deriving DecidableEq, Repr, Inhabited

/-- The wording of a malformation. -/
def Malformation.message : Malformation → String
  | .ulebUnterminated start => s!"Invalid uleb128 at offset {hex 0 start}"
  | .ulebOutOfRange start =>
    s!"Encountered uleb128 that is out of range at offset {hex 0 start}"
  | .slebUnterminated start => s!"Invalid sleb128 at offset {hex 0 start}"
  | .smallFieldOutOfRange offset =>
    s!"Encountered small uint that is out of range at offset {hex 0 offset}"
  | .tryRangeOutsideCode index start unitCount codeSize =>
    s!"Try block {index} [{hex 0 start.toNat}, +{hex 0 unitCount.toNat}) exceeds the instruction " ++
      s!"stream of {hex 0 codeSize.toNat} code units"
  | .tooManyHandlers record declared =>
    s!"Catch handler record at {hex 0 record} declares {declared} handlers"
  | .tooManyDebugItems limit => s!"Debug info exceeds {limit} items"
  | .unusedOpcode opcode => s!"Unused opcode {hex 2 opcode.toNat}"
  | .registerCount count => s!"Invalid register count {count}"
  | .unknownPayload ident => s!"Unknown payload identifier {hex 4 ident}"
  | .crossesEnd (some size) stop =>
    s!"Instruction of {size} code units extends past the end of the instruction stream at " ++
      hex 0 stop
  | .crossesEnd none stop =>
    s!"Instruction extends past the end of the instruction stream at {hex 0 stop}"
  | .noProgress => "Decoder consumed no code units"
  | .described message => message

/-- How an operation on an image fails. -/
inductive DecodeError where
  /-- A structure is present and invalid. -/
  | malformed (what : Malformation)
  /-- The instruction that starts at `offset` is invalid. -/
  | malformedInstruction (offset : Nat) (what : Malformation)
  /-- A read would leave the bytes that are present. -/
  | outOfBounds
  /-- A try table of `count` entries was asked for entry `index`. -/
  | noSuchTryBlock (index count : Nat)
  /-- An image without any byte. -/
  | emptyImage
  /-- The file of an image does not exist. -/
  | missingFile
  /-- A failure outside the image, in the words of who noticed it. -/
  | reported (text : String)
  deriving DecidableEq, Repr, Inhabited

/-- The wording of a failure. -/
def DecodeError.message : DecodeError → String
  | .malformed what => what.message
  | .malformedInstruction offset what =>
    s!"Malformed instruction at offset {hex 0 offset}: {what.message}"
  | .outOfBounds => "Out of Bound read would have occurred!"
  | .noSuchTryBlock index count =>
    s!"Try block index {index} is out of range for a table of {count} entries"
  | .emptyImage => "Provided input was empty"
  | .missingFile => "No such file or directory (os error 2)"
  | .reported text => text

end DalvikCode
