import DalvikCode.Instruction.Decode
import DalvikCode.Trace

/-!
# Instruction streams

An `InstructionStream` is a byte range of an image that holds instructions back to back, together
with the decoder that reads one of them.  A `Traversal` decodes on demand.  No decoder can make it
stand still, move backwards or leave the range: `decodeAt` returns the next position with the proof
that it lies behind the current one and not behind the end.
-/

namespace DalvikCode

/-- The instructions in the bytes from `start` to `stop` of an image. -/
structure InstructionStream where
  image : ByteArray
  start : Nat
  stop : Nat
  decoder : InstructionDecoder := Instruction.decode

namespace InstructionStream

/-- The number of code units in the range. -/
def unitCount (s : InstructionStream) : Nat := (s.stop - s.start) / 2

def isEmpty (s : InstructionStream) : Bool := s.stop ≤ s.start

/-- Whether the range ends inside the image. -/
def IsBounded (s : InstructionStream) : Prop := s.stop ≤ s.image.size

instance (s : InstructionStream) : Decidable s.IsBounded := inferInstanceAs (Decidable (_ ≤ _))

/-- The bytes that decoding may see: the image up to the end of the range.  A read past them means
that an instruction crosses that end. -/
def view (s : InstructionStream) : ByteArray :=
  if s.IsBounded then s.image.extract 0 s.stop else s.image

/-- The address of an offset of the range, in code units. -/
def addressAt (s : InstructionStream) (offset : Nat) : UInt32 :=
  UInt32.ofNat ((offset - s.start) / 2)

/-- The failure of a traversal whose decoder failed with `e` on the instruction at `offset`. -/
def failureAt (s : InstructionStream) (offset : Nat) (e : DecodeError) : DecodeError :=
  match e with
  | .outOfBounds =>
    if s.IsBounded then .malformedInstruction offset (.crossesEnd none s.stop) else .outOfBounds
  | .malformed what => .malformedInstruction offset what
  | e => e

/-- An instruction decoded at `offset`, with the position behind it. -/
structure Decoded (offset stop : Nat) where
  instruction : Instruction
  next : Nat
  offset_lt : offset < next
  next_le : next ≤ stop

/-- Decodes the instruction at `offset`, seeing only the bytes of `view`. -/
def decodeAt (s : InstructionStream) (view : ByteArray) (offset : Nat) :
    Except DecodeError (Decoded offset s.stop) := do
  let cursor ← Cursor.at? view offset
  match s.decoder (s.addressAt offset) cursor with
  | .error e _ => .error (s.failureAt offset e)
  | .ok instruction after =>
    if progress : offset < after.pos then
      if within : after.pos ≤ s.stop then .ok ⟨instruction, after.pos, progress, within⟩
      else .error (.malformedInstruction offset (.crossesEnd (some instruction.size) s.stop))
    else .error (.malformedInstruction offset .noProgress)

/-! ## Traversals -/

/-- A walk through a stream: where the next instruction begins, and whether the walk has failed. -/
structure Traversal where
  stream : InstructionStream
  position : Nat
  failed : Bool := false

def traversal (s : InstructionStream) : Traversal := { stream := s, position := s.start }

namespace Traversal

/-- The next instruction, or the failure that ends the walk; none at the end and ever after. -/
def next (t : Traversal) : Option (Except DecodeError Instruction) × Traversal :=
  if t.failed ∨ t.stream.stop ≤ t.position then (none, t)
  else match t.stream.decodeAt t.stream.view t.position with
    | .ok d => (some (.ok d.instruction), { t with position := d.next })
    | .error e => (some (.error e), { t with failed := true })

end Traversal

/-- Walks on from `offset`, where the instructions in `done` have been passed. -/
def runFrom (s : InstructionStream) (view : ByteArray) (offset : Nat) (done : Array Instruction) :
    Trace Instruction × Traversal :=
  if offset < s.stop then
    match s.decodeAt view offset with
    | .ok d => runFrom s view d.next (done.push d.instruction)
    | .error e => (⟨done, some e⟩, { stream := s, position := offset, failed := true })
  else (⟨done, none⟩, { stream := s, position := offset })
  termination_by s.stop - offset
  decreasing_by have := d.offset_lt; have := d.next_le; omega

/-- Walks the whole stream; the traversal returned stands where the walk ended. -/
def run (s : InstructionStream) : Trace Instruction × Traversal := s.runFrom s.view s.start #[]

/-- All instructions of the stream, or the failure that ends a walk through it. -/
def toArray (s : InstructionStream) : Except DecodeError (Array Instruction) := s.run.1.toExcept

end InstructionStream

end DalvikCode
