import DalvikCode.Debug.Items
import DalvikCode.Instruction.Stream
import DalvikCode.Method.TryTable

/-!
# Method bodies

A `MethodBody` is opened by reading its header.  Instructions, try blocks and debug information are
found from the header, each without the others.
-/

namespace DalvikCode

/-- The body of a method in an image. -/
structure MethodBody where
  image : ByteArray
  header : CodeHeader
  /-- Where the instructions end. -/
  codeStop : Nat
  context : MethodContext
  limits : Limits

namespace MethodBody

/-- Opens the body whose header is at `codeOffset`. -/
def read (image : ByteArray) (codeOffset : Nat) (context : MethodContext) (limits : Limits) :
    Except DecodeError MethodBody := do
  let header ← CodeHeader.read image codeOffset
  return { image, header, codeStop := ← header.instructionsStop, context, limits }

def instructions (b : MethodBody) : InstructionStream where
  image := b.image
  start := b.header.instructionsStart
  stop := b.codeStop

def tryTable (b : MethodBody) : Except DecodeError TryTable := do
  if b.header.tries = 0 then return .empty b.image
  return {
    image := b.image
    triesStart := ← b.header.triesStart
    handlersStart := ← b.header.handlersStart
    count := b.header.tries.toNat
    codeSize := b.header.codeSize
    limits := b.limits }

def tryBlockAt (b : MethodBody) (address : UInt32) : Except DecodeError (Option TryBlock) := do
  (← b.tryTable).blockAt address

def debugInfo (b : MethodBody) : DebugInfo :=
  .resolve b.image b.header.debugInfoOffset b.context b.header.registers b.limits

/-- The parameters of the method with the names that its debug information gives. -/
def parameters (b : MethodBody) : Except DecodeError (List Parameter) := b.debugInfo.parameters

end MethodBody

end DalvikCode
