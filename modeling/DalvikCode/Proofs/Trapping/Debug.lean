import DalvikCode.Debug.Items
import DalvikCode.Proofs.Debug.Locals
import DalvikCode.Proofs.Trapping.Header
import DalvikCode.Proofs.Trapping.Leb128

/-!
# Debug programs on machine words

Arguments are placed in the last registers of a frame that has room for all of them, so that the
index of each is an index of the frame.  Each definition is the one of the same name that runs a
debug program, with its operations spelled out.
-/

namespace DalvikCode.Trapping

open DebugInfo (Machine)

/-! ## 1. Headers -/

/-- The number of bytes behind the cursor. -/
def remaining : Execution Nat := fun c =>
  match sub c.data.size c.pos with
  | .ok n => .ok n c
  | .error t => .error (.trap t) c

-- Room is reserved for as many names, of eight bytes each, as there can be.
def readDebugHeader : Execution DebugHeader := do
  let lineStart ← unsigned
  let count ← small
  let bytes ← remaining
  reserve (min count.toNat bytes) 8
  return { lineStart, parameterNames := ← timesOnto index? count.toNat #[] }

-- In memory, the number of bytes behind the cursor can be looked up.
theorem Agrees.remaining {α : Type} {low : Nat} {f : Nat → Execution α} {r : Reader α}
    (h : ∀ n, Agrees low (f n) r) : Agrees low (Trapping.remaining >>= f) r where
  eq c memory le := by
    have found : Trapping.remaining c = .ok (c.data.size - c.pos) c := by
      rw [Trapping.remaining, sub_of_le memory.pos_le]
    rw [bind_ok found]
    exact (h _).eq c memory le
  forward := (h 0).forward

theorem agrees_readDebugHeader {low : Nat} : Agrees low readDebugHeader DebugHeader.read := by
  refine agrees_unsigned.bind fun lineStart => agrees_small.bind fun count => .remaining fun n => ?_
  have count_lt := count.toNat_lt
  refine .operation (reserve_of_lt (by omega)) ?_
  exact (agrees_index?.timesOnto _ _).bind fun _ => .pure _

def debugHeader (d : DebugInfo) (offset : Nat) : Except Fault (DebugHeader × Cursor) :=
  started readDebugHeader d.image offset

def parameterNames (d : DebugInfo) : Except Fault (List (Option String)) := do
  let some offset := d.offset? | return []
  let (header, _) ← debugHeader d offset
  return header.parameterNames.toList.map d.context.resolveString?

def parameters (d : DebugInfo) : Except Fault (List Parameter) := do
  let names ← parameterNames d
  return d.context.parameterTypes.mapIdx fun i descriptor => ⟨descriptor, (names[i]?).join⟩

section
variable {d : DebugInfo} (size_lt : d.image.size < 2 ^ 63)
include size_lt

theorem debugHeader_eq (offset : Nat) : debugHeader d offset = ofExcept (d.readHeader offset) := by
  rw [debugHeader, started_eq agrees_readDebugHeader size_lt, DebugInfo.readHeader, Cursor.at?]
  split
  · rw [ok_bind]
    cases DebugHeader.read ⟨d.image, offset⟩ <;> rfl
  · rfl

theorem inMemory_of_readHeader {offset : Nat} {header : DebugHeader} {cursor : Cursor}
    (ok : d.readHeader offset = .ok (header, cursor)) : InMemory cursor := by
  rw [DebugInfo.readHeader, Cursor.at?] at ok
  split at ok
  · next le =>
    rw [ok_bind] at ok
    split at ok
    · next read =>
      cases ok
      exact agrees_readDebugHeader.inMemory_of_ok ⟨le, size_lt⟩ read
    · cases ok
  · cases ok

theorem parameterNames_eq : parameterNames d = ofExcept d.parameterNames := by
  rw [parameterNames, DebugInfo.parameterNames]
  cases d.offset? with
  | none => rfl
  | some offset => exact bind_of_eq (debugHeader_eq size_lt offset) fun _ _ => rfl

theorem parameters_eq : parameters d = ofExcept d.parameters :=
  bind_of_eq (parameterNames_eq size_lt) fun _ _ => rfl

end

/-! ## 2. The frame on entry -/

def totalWidth (infos : List LocalInfo) : Except Trap Nat :=
  infos.foldlM (fun width info => add 64 width info.width) 0

def place (t : LocalTable) (register : Nat) : List LocalInfo → Except Trap LocalTable
  | [] => return t
  | argument :: rest => do
    let t ← set t register ⟨argument, true⟩
    place t (← add 64 register argument.width) rest

def entry (registers : Nat) (arguments : List LocalInfo) : Except Trap LocalTable := do
  let width ← totalWidth arguments
  if width ≤ registers then place (.unknown registers) (registers - width) arguments
  else return .unknown registers

theorem totalWidth_le (infos : List LocalInfo) :
    LocalTable.totalWidth infos ≤ 2 * infos.length := by
  induction infos with
  | nil => exact Nat.le_refl 0
  | cons info rest ih =>
    have width := info.width_bounds
    rw [LocalTable.totalWidth, List.length_cons]
    omega

theorem foldlM_width (infos : List LocalInfo) (width : Nat)
    (fits : width + LocalTable.totalWidth infos < 2 ^ 64) :
    infos.foldlM (fun width info => add 64 width info.width) width =
      .ok (width + LocalTable.totalWidth infos) := by
  induction infos generalizing width with
  | nil => rfl
  | cons info rest ih =>
    rw [LocalTable.totalWidth, ← Nat.add_assoc] at fits ⊢
    rw [List.foldlM_cons, add_of_lt (by omega)]
    exact ih (width + info.width) fits

-- Along the arguments: the registers that the rest takes end in the frame, so the next index does.
theorem place_eq (arguments : List LocalInfo) (t : LocalTable) (register : Nat)
    (size_lt : t.size < 2 ^ 64) (fits : register + LocalTable.totalWidth arguments ≤ t.size) :
    place t register arguments = .ok (t.place register arguments) := by
  induction arguments generalizing t register with
  | nil => rfl
  | cons argument rest ih =>
    have width := argument.width_bounds
    rw [LocalTable.totalWidth, ← Nat.add_assoc] at fits
    have inside : register < t.size := by omega
    rw [place, LocalTable.place, set, if_pos inside]
    show (add 64 register argument.width >>= _) = _
    rw [add_of_lt (by omega)]
    exact ih _ _ (by rw [Array.size_setIfInBounds]; exact size_lt)
      (by rw [Array.size_setIfInBounds]; exact fits)

theorem entry_eq {registers : Nat} {arguments : List LocalInfo} (registers_lt : registers < 2 ^ 64)
    (few : 2 * arguments.length < 2 ^ 64) :
    entry registers arguments = .ok (.entry registers arguments) := by
  have width_le := totalWidth_le arguments
  have width_eq : totalWidth arguments = .ok (LocalTable.totalWidth arguments) := by
    rw [totalWidth, foldlM_width arguments 0 (by omega), Nat.zero_add]
  rw [entry, width_eq, LocalTable.entry]
  show (if LocalTable.totalWidth arguments ≤ registers then _ else _) = _
  split
  · next fits =>
    have size : (LocalTable.unknown registers).size = registers := Array.size_replicate
    exact place_eq _ _ _ (by omega) (by omega)
  · rfl

/-! ## 3. Operations -/

def readOperation : Execution DebugOp := do
  match ← number 1 with
  | 0x00 => return .endSequence
  | 0x01 => return .advancePc (← small)
  | 0x02 => return .advanceLine (← signed)
  | 0x03 => do
    let register ← small
    let name? ← index?
    return .startLocal register name? (← index?)
  | 0x04 => do
    let register ← small
    let name? ← index?
    let type? ← index?
    return .startLocalExtended register name? type? (← index?)
  | 0x05 => return .endLocal (← small)
  | 0x06 => return .restartLocal (← small)
  | 0x07 => return .prologueEnd
  | 0x08 => return .epilogueBegin
  | 0x09 => return .setFile (← index?)
  | opcode => do
    let step ← sub opcode 0x0a
    return .special ⟨step % 246, Nat.mod_lt step (by decide)⟩

-- Of all operations, only a special one uses a partial operation: the others look up their
-- registers with a check, and addresses and lines wrap around.
def apply (context : MethodContext) (m : Machine) :
    DebugOp → Except Trap (Option DebugEvent × Machine)
  | .special step => do
    let advance ← addSigned (-4) (step.val % 15 : Nat)
    let line := m.line + Int32.ofInt advance
    return (some (.lineNumber line),
      { m with address := m.address + UInt32.ofNat (step.val / 15), line })
  | op => return m.apply context op

def emit (limits : Limits) (m : Machine) :
    Option DebugEvent → Execution (Option DebugItem × Machine)
  | none => return (none, m)
  | some event =>
    if m.emitted < limits.maxDebugItems then do
      let emitted ← add 64 m.emitted 1
      return (some ⟨m.address, event⟩, { m with emitted })
    else throw (.failed (.malformed (.tooManyDebugItems limits.maxDebugItems)))

def step (d : DebugInfo) (m : Machine) : Execution (Option (Option DebugItem × Machine)) := do
  match ← readOperation with
  | .endSequence => return none
  | op =>
    let (event?, m) ← apply d.context m op
    return some (← emit d.limits m event?)

def nextItem (d : DebugInfo) :
    (bytes : Nat) → Machine → Execution (Option (DebugItem × Machine))
  | 0, _ => throw (.failed .outOfBounds)
  | bytes + 1, m => do
    match ← step d m with
    | none => return none
    | some (some item, m) => return some (item, m)
    | some (none, m) => nextItem d bytes m

theorem agrees_readOperation {low : Nat} : Agrees low readOperation DebugOp.read := by
  refine .bind (.number 1) fun opcode => ?_
  -- one case for each opcode below `0x0a`; only behind these is the difference a step
  match opcode with
  | 0x00 | 0x07 | 0x08 => exact .pure _
  | 0x01 | 0x05 | 0x06 => exact agrees_small.bind fun _ => .pure _
  | 0x02 => exact agrees_signed.bind fun _ => .pure _
  | 0x03 =>
    exact agrees_small.bind fun _ => agrees_index?.bind fun _ => agrees_index?.bind fun _ => .pure _
  | 0x04 =>
    exact agrees_small.bind fun _ => agrees_index?.bind fun _ => agrees_index?.bind fun _ =>
      agrees_index?.bind fun _ => .pure _
  | 0x09 => exact agrees_index?.bind fun _ => .pure _
  | step + 0x0a => exact .operation (sub_of_le (Nat.le_add_left 0x0a step)) (.pure _)

theorem apply_eq (context : MethodContext) (m : Machine) (op : DebugOp) :
    apply context m op = .ok (m.apply context op) := by
  cases op with
  | special step =>
    have lt : step.val % 15 < 15 := Nat.mod_lt _ (by decide)
    have inside : -2 ^ 31 ≤ (-4 : Int) + (step.val % 15 : Nat) ∧
        (-4 : Int) + (step.val % 15 : Nat) < 2 ^ 31 := by omega
    rw [apply, addSigned, if_pos inside, Int.add_comm]
    rfl
  | _ => rfl

section
variable {low : Nat} {limits : Limits} (limits_lt : limits.maxDebugItems < 2 ^ 64)

include limits_lt in
theorem agrees_emit (m : Machine) (event? : Option DebugEvent) :
    Agrees low (some <$> emit limits m event?) (match m.emit? limits event? with
      | .ok (item?, m) => return some (item?, m)
      | .error e => throw e) := by
  cases event? with
  | none => exact .pure _
  | some event =>
    rw [emit, Machine.emit?]
    -- a count below a word does not overflow by one more
    by_cases admitted : m.emitted < limits.maxDebugItems
    · rw [if_pos admitted, if_pos admitted, add_of_lt (by omega)]
      exact .pure _
    · rw [if_neg admitted, if_neg admitted]
      exact .map some (.throw _)

variable {d : DebugInfo} (items_lt : d.limits.maxDebugItems < 2 ^ 64)
include items_lt

theorem agrees_step (m : Machine) : Agrees low (step d m) (d.step m) := by
  refine agrees_readOperation.bind fun op => ?_
  -- every operation but the end marker
  have carried : Agrees low ((liftM (apply d.context m op) : Execution _) >>= fun r =>
      some <$> emit d.limits r.2 r.1)
      (match (m.apply d.context op).2.emit? d.limits (m.apply d.context op).1 with
        | .ok (item?, m) => return some (item?, m)
        | .error e => throw e) :=
    .operation (apply_eq d.context m op) (agrees_emit items_lt _ _)
  cases op with
  | endSequence => exact .pure none
  | _ => exact carried

-- By induction on the bytes that are left, as each operation takes at least one of them.
theorem agrees_nextItem (bytes : Nat) (m : Machine) :
    Agrees low (nextItem d bytes m) (d.nextItem bytes m) := by
  induction bytes generalizing m with
  | zero => exact .throw _
  | succ bytes ih =>
    refine (agrees_step items_lt m).bind fun result => ?_
    match result with
    | none => exact .pure _
    | some (some item, m) => exact .pure _
    | some (none, m) => exact ih m

end

/-! ## 4. Walks -/

def load (d : DebugInfo) (offset : Nat) : Except Fault (Machine × Cursor) := do
  let (header, cursor) ← debugHeader d offset
  let locals ← entry d.registers.toNat (DebugInfo.arguments d.context header)
  return ({ locals, line := header.lineStart.toInt32 }, cursor)

def continueFrom (t : DebugInfo.Traversal) (m : Machine) (cursor : Cursor) :
    Except Trap (Option (Except DecodeError DebugItem) × DebugInfo.Traversal) :=
  match nextItem t.info cursor.remaining m cursor with
  | .ok (some (item, m)) cursor => .ok (some (.ok item), { t with progress := .paused m cursor })
  | .ok none _ => .ok (none, t.close)
  | .error (.failed e) _ => .ok (some (.error e), t.close)
  | .error (.trap trap) _ => .error trap

/-- The next item of a walk, or the failure that ends it. -/
def nextDebugItem (t : DebugInfo.Traversal) :
    Except Trap (Option (Except DecodeError DebugItem) × DebugInfo.Traversal) :=
  match t.progress with
  | .finished => .ok (none, t)
  | .paused m cursor => continueFrom t m cursor
  | .unstarted =>
    match t.info.offset? with
    | none => .ok (none, t.close)
    | some offset =>
      match load t.info offset with
      | .ok (m, cursor) => continueFrom t m cursor
      | .error (.failed e) => .ok (some (.error e), t.close)
      | .error (.trap trap) => .error trap

/-- A walk through the debug items has come to `t`. -/
inductive DebugWalked (d : DebugInfo) : DebugInfo.Traversal → Prop where
  | start : DebugWalked d d.traversal
  | next {t u : DebugInfo.Traversal} {r : Option (Except DecodeError DebugItem)}
      (before : DebugWalked d t) (h : nextDebugItem t = .ok (r, u)) : DebugWalked d u

/-- A walk through the debug items stands in the image wherever it has paused. -/
structure Resumable (d : DebugInfo) (t : DebugInfo.Traversal) : Prop where
  info_eq : t.info = d
  memory : ∀ m cursor, t.progress = .paused m cursor → InMemory cursor

/-- What the program has to be promised: the image is a slice, and so are the descriptors of the
parameters, of 24 bytes each; the number of items is counted in a word. -/
structure Representable (d : DebugInfo) : Prop where
  image_lt : d.image.size < 2 ^ 63
  parameters_lt : 24 * d.context.parameterTypes.length < 2 ^ 63
  items_lt : d.limits.maxDebugItems < 2 ^ 64

theorem length_arguments_le (context : MethodContext) (header : DebugHeader) :
    (DebugInfo.arguments context header).length ≤ context.parameterTypes.length + 1 := by
  rw [DebugInfo.arguments, List.length_append, List.length_mapIdx]
  split
  · exact Nat.le_of_eq (Nat.add_comm _ _)
  · exact Nat.le_trans (Nat.le_of_eq (Nat.zero_add _)) (Nat.le_succ _)

section
variable {d : DebugInfo} (small : Representable d)
include small

theorem load_eq (offset : Nat) : load d offset = ofExcept (d.load offset) := by
  refine bind_of_eq (debugHeader_eq small.image_lt offset) fun header _ => ?_
  -- an argument takes at most two registers, far less than the bytes that hold its descriptor
  have parameters_lt := small.parameters_lt
  have length_le := length_arguments_le d.context header.1
  have registers_lt := d.registers.toNat_lt
  exact bind_operation (entry_eq (by omega) (by omega)) rfl

theorem inMemory_of_load {offset : Nat} {m : Machine} {cursor : Cursor}
    (ok : d.load offset = .ok (m, cursor)) : InMemory cursor := by
  obtain ⟨header, read, ok⟩ := bind_eq_ok_iff.mp ok
  cases ok
  exact inMemory_of_readHeader small.image_lt read

variable {t : DebugInfo.Traversal}

theorem continueFrom_eq (info_eq : t.info = d) {m : Machine} {cursor : Cursor}
    (memory : InMemory cursor) : continueFrom t m cursor = .ok (t.continueFrom m cursor) := by
  subst info_eq
  have same := (agrees_nextItem small.items_lt cursor.remaining m).eq_of_inMemory memory
  rw [continueFrom, same, ofReader, DebugInfo.Traversal.continueFrom]
  rcases t.info.nextItem cursor.remaining m cursor with ⟨_ | _, _⟩ | ⟨_, _⟩ <;> rfl

theorem resumable_continueFrom (info_eq : t.info = d) {m : Machine} {cursor : Cursor}
    (memory : InMemory cursor) : Resumable d (t.continueFrom m cursor).2 := by
  subst info_eq
  rw [DebugInfo.Traversal.continueFrom]
  split
  · next ok =>
    refine ⟨rfl, fun m' cursor' paused => ?_⟩
    cases paused
    exact (agrees_nextItem small.items_lt _ _).inMemory_of_ok memory ok
  · exact ⟨rfl, nofun⟩
  · exact ⟨rfl, nofun⟩

theorem nextDebugItem_eq (h : Resumable d t) : nextDebugItem t = .ok t.next := by
  obtain ⟨rfl, memory⟩ := h
  rw [nextDebugItem, DebugInfo.Traversal.next]
  cases progress : t.progress with
  | finished => rfl
  | paused m cursor => exact continueFrom_eq small rfl (memory m cursor progress)
  | unstarted =>
    cases t.info.offset? with
    | none => rfl
    | some offset =>
      simp only [load_eq small]
      cases loaded : t.info.load offset with
      | error e => rfl
      | ok start =>
        exact continueFrom_eq small rfl (inMemory_of_load small loaded)

theorem Resumable.next (h : Resumable d t) : Resumable d t.next.2 := by
  obtain ⟨rfl, memory⟩ := h
  rw [DebugInfo.Traversal.next]
  cases progress : t.progress with
  | finished => exact ⟨rfl, memory⟩
  | paused m cursor => exact resumable_continueFrom small rfl (memory m cursor progress)
  | unstarted =>
    cases t.info.offset? with
    | none => exact ⟨rfl, nofun⟩
    | some offset =>
      dsimp only
      cases loaded : t.info.load offset with
      | error e => exact ⟨rfl, nofun⟩
      | ok start =>
        exact resumable_continueFrom small rfl (inMemory_of_load small loaded)

theorem resumable_of_walked (h : DebugWalked d t) : Resumable d t := by
  induction h with
  | start => exact ⟨rfl, nofun⟩
  | next before h ih =>
    rw [nextDebugItem_eq small ih, Except.ok.injEq] at h
    have resumable := ih.next small
    rw [h] at resumable
    exact resumable

end

/-- Wherever a walk through the debug items has come, it goes on as the debug information says, and
so do the names of the parameters; nothing traps. -/
structure DebugAgrees (d : DebugInfo) : Prop where
  next : ∀ t, DebugWalked d t → nextDebugItem t = .ok t.next
  parameterNames : Trapping.parameterNames d = ofExcept d.parameterNames
  parameters : Trapping.parameters d = ofExcept d.parameters

theorem debugAgrees {d : DebugInfo} (small : Representable d) : DebugAgrees d where
  next _ walked := nextDebugItem_eq small (resumable_of_walked small walked)
  parameterNames := parameterNames_eq small.image_lt
  parameters := parameters_eq small.image_lt

end DalvikCode.Trapping
