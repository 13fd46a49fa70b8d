import DalvikCode.Debug.Info

/-!
# Debug items

Runs the debug program of a method item by item.  Every operation takes at least one byte, so a
program in `n` bytes has at most `n` operations: loops over operations count down the bytes that
remain, and a program that has used them up fails where the next opcode is missing.
-/

namespace DalvikCode.DebugInfo

/-- The machine and the cursor in front of the first operation of the program at `offset`. -/
def load (d : DebugInfo) (offset : Nat) : Except DecodeError (Machine × Cursor) := do
  let (header, cursor) ← d.readHeader offset
  return (.init d.context d.registers header, cursor)

/-- Reads one operation and carries it out; none at the end marker. -/
def step (d : DebugInfo) (m : Machine) : Reader (Option (Option DebugItem × Machine)) := do
  match ← DebugOp.read with
  | .endSequence => return none
  | op =>
    let (event?, m) := m.apply d.context op
    match m.emit? d.limits event? with
    | .ok (item?, m) => return some (item?, m)
    | .error e => throw e

/-- Carries out operations until one reports an item; none at the end marker. -/
def nextItem (d : DebugInfo) : (bytes : Nat) → Machine → Reader (Option (DebugItem × Machine))
  | 0, _ => throw .outOfBounds
  | bytes + 1, m => do
    match ← d.step m with
    | none => return none
    | some (some item, m) => return some (item, m)
    | some (none, m) => d.nextItem bytes m

/-- Carries out operations up to the end marker or a failure, and collects what they report behind
the items in `done`. -/
def runFrom (d : DebugInfo) :
    (bytes : Nat) → Machine → Array DebugItem → Cursor → Trace DebugItem
  | 0, _, done, _ => ⟨done, some .outOfBounds⟩
  | bytes + 1, m, done, cursor =>
    match d.step m cursor with
    | .error e _ => ⟨done, some e⟩
    | .ok none _ => ⟨done, none⟩
    | .ok (some (item?, m)) cursor =>
      d.runFrom bytes m (match item? with | some item => done.push item | none => done) cursor

/-- Everything that the debug program reports. -/
def run (d : DebugInfo) : Trace DebugItem :=
  match d.offset? with
  | none => ⟨#[], none⟩
  | some offset =>
    match d.load offset with
    | .error e => ⟨#[], some e⟩
    | .ok (m, cursor) => d.runFrom cursor.remaining m #[] cursor

/-! ## Traversals -/

/-- How far a traversal has come. -/
inductive Progress where
  /-- Nothing has been read. -/
  | unstarted
  /-- The machine stopped behind an item. -/
  | paused (m : Machine) (cursor : Cursor)
  /-- The end marker or a failure has been met. -/
  | finished

/-- A walk through the debug items of a method. -/
structure Traversal where
  info : DebugInfo
  progress : Progress := .unstarted

/-- The walk that begins before the first item. -/
def traversal (d : DebugInfo) : Traversal := { info := d }

namespace Traversal

/-- The walk after its last result. -/
def close (t : Traversal) : Traversal := { t with progress := .finished }

/-- Runs the machine to the next item. -/
def continueFrom (t : Traversal) (m : Machine) (cursor : Cursor) :
    Option (Except DecodeError DebugItem) × Traversal :=
  match t.info.nextItem cursor.remaining m cursor with
  | .ok (some (item, m)) cursor => (some (.ok item), { t with progress := .paused m cursor })
  | .ok none _ => (none, t.close)
  | .error e _ => (some (.error e), t.close)

/-- The next item, or the failure that ends the walk; none at the end and ever after. -/
def next (t : Traversal) : Option (Except DecodeError DebugItem) × Traversal :=
  match t.progress with
  | .finished => (none, t)
  | .paused m cursor => t.continueFrom m cursor
  | .unstarted =>
    match t.info.offset? with
    | none => (none, t.close)
    | some offset =>
      match t.info.load offset with
      | .error e => (some (.error e), t.close)
      | .ok (m, cursor) => t.continueFrom m cursor

end Traversal

end DalvikCode.DebugInfo
