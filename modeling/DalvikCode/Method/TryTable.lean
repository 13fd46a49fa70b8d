import DalvikCode.Leb128
import DalvikCode.Limits
import DalvikCode.Method.Context
import DalvikCode.Method.Header

/-!
# Try blocks and their handlers

A `TryTable` is read entry by entry.  An entry covers a range of addresses and refers to a handler
record, in which typed handlers come first and a catch-all, if there is one, last.
-/

namespace DalvikCode

/-- Where execution goes on after an exception of a type; a catch-all has no type. -/
structure ExceptionHandler where
  typeIndex? : Option UInt32
  address : UInt32
  deriving DecidableEq, Repr, Inhabited

namespace ExceptionHandler

def isCatchAll (h : ExceptionHandler) : Bool := h.typeIndex?.isNone

def descriptor? (h : ExceptionHandler) (context : MethodContext) : Option String :=
  context.resolveType? h.typeIndex?

end ExceptionHandler

/-- The addresses from `start` on, `unitCount` of them, with the place of their handler record. -/
structure TryBlock where
  start : UInt32
  unitCount : UInt16
  handlerOffset : UInt16
  deriving DecidableEq, Repr, Inhabited

namespace TryBlock

def stop (b : TryBlock) : UInt32 := b.start + b.unitCount.toUInt32

def covers (b : TryBlock) (address : UInt32) : Bool := b.start ≤ address && address < b.stop

end TryBlock

/-- A table of `count` try blocks in an image, with the list of their handler records. -/
structure TryTable where
  image : ByteArray
  triesStart : Nat
  handlersStart : Nat
  count : Nat
  codeSize : UInt32
  limits : Limits

namespace TryTable

def empty (image : ByteArray) : TryTable where
  image
  triesStart := 0
  handlersStart := 0
  count := 0
  codeSize := 0
  limits := .standard

/-! ## 1. Blocks -/

/-- Whether a block lies inside the code of the method. -/
def InCode (t : TryTable) (b : TryBlock) : Prop :=
  b.start.toNat + b.unitCount.toNat ≤ t.codeSize.toNat

instance (t : TryTable) (b : TryBlock) : Decidable (t.InCode b) :=
  inferInstanceAs (Decidable (_ ≤ _))

/-- The entry with a given index. -/
def block (t : TryTable) (index : Nat) : Except DecodeError TryBlock := do
  unless index < t.count do throw (.noSuchTryBlock index t.count)
  let offset := t.triesStart + CodeHeader.tryItemSize * index
  let _ ← checkedOffset (offset + CodeHeader.tryItemSize)
  let b : TryBlock := {
    start := ← Bytes.smallAt t.image offset
    unitCount := ← Bytes.u16At t.image (offset + 4)
    handlerOffset := ← Bytes.u16At t.image (offset + 6) }
  if t.limits.validateTryRanges ∧ ¬ t.InCode b then
    throw (.malformed (.tryRangeOutsideCode index b.start b.unitCount t.codeSize))
  return b

/-- Every entry in order, read or failed. -/
def blocks (t : TryTable) : List (Except DecodeError TryBlock) :=
  (List.range t.count).map t.block

/-- The first of some entries that covers an address; an entry that cannot be read ends the
search. -/
def firstCovering (address : UInt32) :
    List (Except DecodeError TryBlock) → Except DecodeError (Option TryBlock)
  | [] => .ok none
  | .error e :: _ => .error e
  | .ok b :: rest => if b.covers address then .ok (some b) else firstCovering address rest

def blockAt (t : TryTable) (address : UInt32) : Except DecodeError (Option TryBlock) :=
  firstCovering address t.blocks

/-! ## 2. Handlers -/

/-- Where the handler record of a block begins; an offset past the last 64-bit word stays there. -/
def recordOffset (t : TryTable) (b : TryBlock) : Nat :=
  min (t.handlersStart + b.handlerOffset.toNat) (2 ^ 64 - 1)

/-- Reads a handler for exceptions of one type. -/
def readTyped : Reader ExceptionHandler := do
  let type ← Leb128.small
  return ⟨some type, ← Leb128.small⟩

def readCatchAll : Reader ExceptionHandler := return ⟨none, ← Leb128.small⟩

/-- Reads the handler record at `record`.  Its size counts the typed handlers; it is zero or
negative if a catch-all follows them. -/
def readRecord (limits : Limits) (record : Nat) : Reader (Array ExceptionHandler) := do
  let size := (← Leb128.signed).toInt
  if limits.maxHandlers < size.natAbs then
    Reader.malformed (.tooManyHandlers record size.natAbs)
  let typed ← Reader.times size.natAbs readTyped
  if size ≤ 0 then return typed.push (← readCatchAll) else return typed

def handlers (t : TryTable) (b : TryBlock) : Except DecodeError (Array ExceptionHandler) := do
  let cursor ← Cursor.at? t.image (t.recordOffset b)
  match readRecord t.limits (t.recordOffset b) cursor with
  | .ok handlers _ => .ok handlers
  | .error e _ => .error e

/-- The address of the catch-all of a block. -/
def catchAll? (t : TryTable) (b : TryBlock) : Except DecodeError (Option UInt32) := do
  return ((← t.handlers b).back?.filter (·.isCatchAll)).map (·.address)

end TryTable

end DalvikCode
