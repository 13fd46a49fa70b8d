import DalvikCode.Debug.Locals
import DalvikCode.Debug.Operation
import DalvikCode.Limits
import DalvikCode.Trace

/-!
# Debug information

`DebugInfo` finds the debug program of a method.  The program runs on a `Machine`, whose registers
are an address, a line and the local variables; some operations only change these, the others emit a
`DebugItem`.
-/

namespace DalvikCode

/-- What a debug program reports. -/
inductive DebugEvent where
  | startLocal (register : UInt32) (info : LocalInfo)
  | endLocal (register : UInt32) (info : LocalInfo)
  | restartLocal (register : UInt32) (info : LocalInfo)
  | prologueEnd
  | epilogueBegin
  | setSourceFile (name? : Option String)
  | lineNumber (line : Int32)
  deriving DecidableEq, Repr, Inhabited

/-- A report, with the address that it is about. -/
structure DebugItem where
  address : UInt32
  event : DebugEvent
  deriving DecidableEq, Repr, Inhabited

/-- The debug information of a method; it is absent if it has no offset. -/
structure DebugInfo where
  image : ByteArray
  offset? : Option Nat
  context : MethodContext
  registers : UInt16
  limits : Limits

namespace DebugInfo

/-- The debug information at an offset, where zero stands for none. -/
def resolve (image : ByteArray) (offset : UInt32) (context : MethodContext) (registers : UInt16)
    (limits : Limits) : DebugInfo where
  image
  offset? := if offset = 0 then none else some offset.toNat
  context
  registers
  limits

def isPresent (d : DebugInfo) : Bool := d.offset?.isSome

/-! ## 1. Parameter names -/

/-- Reads the header at `offset`; the cursor returned stands before the first operation. -/
def readHeader (d : DebugInfo) (offset : Nat) : Except DecodeError (DebugHeader × Cursor) := do
  match DebugHeader.read (← Cursor.at? d.image offset) with
  | .ok header cursor => .ok (header, cursor)
  | .error e _ => .error e

/-- The names of the parameters, as many as the header lists. -/
def parameterNames (d : DebugInfo) : Except DecodeError (List (Option String)) := do
  let some offset := d.offset? | return []
  let (header, _) ← d.readHeader offset
  return header.parameterNames.toList.map d.context.resolveString?

/-- The parameters of the method with their names. -/
def parameters (d : DebugInfo) : Except DecodeError (List Parameter) := do
  let names ← d.parameterNames
  return d.context.parameterTypes.mapIdx fun i descriptor => ⟨descriptor, (names[i]?).join⟩

/-! ## 2. The machine -/

/-- The state of a running debug program. -/
structure Machine where
  locals : LocalTable
  address : UInt32 := 0
  line : Int32
  emitted : Nat := 0
  deriving DecidableEq, Repr, Inhabited

/-- The arguments of the method, the receiver first. -/
def arguments (context : MethodContext) (header : DebugHeader) : List LocalInfo :=
  let receiver : List LocalInfo :=
    if context.hasReceiver then
      [{ name? := some "this", descriptor? := some context.definingClass }]
    else []
  receiver ++ context.parameterTypes.mapIdx fun i descriptor =>
    { name? := context.resolveString? (header.parameterNames[i]?).join
      descriptor? := some descriptor }

/-- The machine before the first operation. -/
def Machine.init (context : MethodContext) (registers : UInt16) (header : DebugHeader) :
    Machine where
  locals := LocalTable.entry registers.toNat (arguments context header)
  line := header.lineStart.toInt32

/-- A variable begins in a register. -/
def Machine.startLocal (m : Machine) (register : UInt32) (info : LocalInfo) :
    Option DebugEvent × Machine :=
  (some (.startLocal register info), { m with locals := m.locals.begin register.toNat info })

/-- Carries out one operation, and returns what it reports. -/
def Machine.apply (context : MethodContext) (m : Machine) : DebugOp → Option DebugEvent × Machine
  | .endSequence => (none, m)
  | .advancePc delta => (none, { m with address := m.address + delta })
  | .advanceLine delta => (none, { m with line := m.line + delta })
  | .startLocal register name? type? => m.startLocal register
      { name? := context.resolveString? name?, descriptor? := context.resolveType? type? }
  | .startLocalExtended register name? type? signature? => m.startLocal register
      { name? := context.resolveString? name?, descriptor? := context.resolveType? type?
        signature? := context.resolveString? signature? }
  | .endLocal register =>
    let (info, locals) := m.locals.finish register.toNat
    (some (.endLocal register info), { m with locals })
  | .restartLocal register =>
    let (info, locals) := m.locals.resume register.toNat
    (some (.restartLocal register info), { m with locals })
  | .prologueEnd => (some .prologueEnd, m)
  | .epilogueBegin => (some .epilogueBegin, m)
  | .setFile name? => (some (.setSourceFile (context.resolveString? name?)), m)
  | .special step =>
    let line := m.line + DebugOp.lineAdvance step
    (some (.lineNumber line), { m with address := m.address + DebugOp.addressAdvance step, line })

/-- Counts an item if something is reported.  One item more than the limits admit is refused. -/
def Machine.emit? (limits : Limits) (m : Machine) :
    Option DebugEvent → Except DecodeError (Option DebugItem × Machine)
  | none => .ok (none, m)
  | some event =>
    if m.emitted < limits.maxDebugItems then
      .ok (some ⟨m.address, event⟩, { m with emitted := m.emitted + 1 })
    else .error (.malformed (.tooManyDebugItems limits.maxDebugItems))

end DebugInfo

end DalvikCode
