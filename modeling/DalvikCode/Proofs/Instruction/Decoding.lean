import DalvikCode.Instruction.Decode
import DalvikCode.Proofs.Reading

/-!
# What one instruction is decoded from

An instruction is decoded from the bytes that it takes and from nothing else: `Spells bs x` says
that the bytes `bs` are an instruction with content `x`, and decoding succeeds exactly where such
bytes stand.  Where it fails, it names the offset at which it began or runs out of bytes.
-/

namespace DalvikCode.Instruction

open Reader

/-! ## 1. Operands and payloads -/

section
variable {P : {α : Type} → (Nat → Reader α) → Prop} (h : Closed P)
include h

theorem closed_readRegisterList (unit : Nat) : P fun offset => readRegisterList offset unit := by
  unfold readRegisterList
  refine Closed.ite _ (h.bind (h.throw _) fun _ => ?_) ?_
  all_goals exact h.bind (h.number 2) fun _ => h.pure _

theorem closed_readOperands (opcode : UInt8) (unit : Nat) (format : OperandFormat) :
    P fun offset => readOperands offset opcode unit format := by
  have list := closed_readRegisterList h unit
  cases format with
  | f10x | f10t | f11n | f11x | f12x => exact h.pure _
  | f20t | f21h | f21s | f21t | f22s | f22t => exact h.bind (h.scalar .i16) fun _ => h.pure _
  | f21c | f22c => exact h.bind (h.number 2) fun _ => h.pure _
  | f22x => exact h.bind h.u16 fun _ => h.pure _
  | f22b => exact h.bind (h.number 1) fun _ => h.bind (h.scalar .i8) fun _ => h.pure _
  | f23x => exact h.bind (h.number 1) fun _ => h.bind (h.number 1) fun _ => h.pure _
  | f30t | f31i | f31t => exact h.bind (h.scalar .i32) fun _ => h.pure _
  | f31c => exact h.bind h.u32 fun _ => h.pure _
  | f32x => exact h.bind h.u16 fun _ => h.bind h.u16 fun _ => h.pure _
  | f35c => exact h.bind (h.number 2) fun _ => h.bind list fun _ => h.pure _
  | f3rc => exact h.bind (h.number 2) fun _ => h.bind h.u16 fun _ => h.pure _
  | f45cc =>
    exact h.bind (h.number 2) fun _ => h.bind list fun _ => h.bind h.u16 fun _ => h.pure _
  | f4rcc =>
    exact h.bind (h.number 2) fun _ => h.bind h.u16 fun _ => h.bind h.u16 fun _ => h.pure _
  | f51l => exact h.bind (h.scalar .i64) fun _ => h.pure _

theorem closed_readPayload (kind : PayloadKind) : P fun _ => readPayload kind := by
  cases kind with
  | packedSwitch =>
    exact h.bind (h.number 2) fun _ => h.bind (h.scalar .i32) fun _ => h.bind (h.take _) fun _ =>
      h.pure _
  | sparseSwitch =>
    exact h.bind (h.number 2) fun _ => h.bind (h.take _) fun _ => h.bind (h.take _) fun _ =>
      h.pure _
  | array =>
    exact h.bind h.u16 fun _ => h.bind h.u32 fun _ => h.bind (h.take _) fun _ =>
      h.bind (h.skip _) fun _ => h.pure _

theorem closed_readBody (unit : Nat) : P fun offset => readBody offset unit := by
  simp only [readBody]
  cases OperandFormat.ofOpcode? (UInt8.ofNat unit) with
  | none => exact h.throw _
  | some format =>
    refine Closed.ite _ ?_ (h.bind (closed_readOperands h _ unit format) fun _ => h.pure _)
    cases PayloadKind.ofIdent? unit with
    | none => exact h.throw _
    | some kind => exact h.bind (closed_readPayload h kind) fun _ => h.pure _

end

/-! ## 2. Content -/

/-- What the bytes of an instruction say, its place aside. -/
structure Content where
  opcode : UInt8
  format : Format
  operands : Operands
  deriving DecidableEq

/-- The content of an instruction. -/
def content (i : Instruction) : Content := ⟨i.opcode, i.format, i.operands⟩

/-- The instruction with a given content that takes `length` bytes at `offset`. -/
def Content.place (x : Content) (offset : Nat) (address : UInt32) (length : Nat) :
    Instruction where
  offset
  address
  opcode := x.opcode
  format := x.format
  size := length / 2
  operands := x.operands

/-- Reads the content of an instruction that starts at `offset`. -/
def readContent (offset : Nat) : Reader Content := do
  let unit ← number 2
  let (format, operands) ← readBody offset unit
  return ⟨UInt8.ofNat unit, format, operands⟩

/-- What passes from the parts of readers to the readers, it passes to those of instructions. -/
theorem closed_readContent {P : {α : Type} → (Nat → Reader α) → Prop} (h : Closed P) :
    P readContent :=
  h.bind (h.number 2) fun unit => h.bind (closed_readBody h unit) fun _ => h.pure _

-- An instruction is its content, placed where decoding began.
theorem decode_eq (address : UInt32) (c : Cursor) :
    decode address c = match readContent c.pos c with
      | .ok x c' => .ok (x.place c.pos address (c'.pos - c.pos)) c'
      | .error e c' => .error e c' := by
  rw [decode, bind_of_ok (show position c = .ok c.pos c from rfl), readContent]
  cases first : number 2 c with
  | error e c' => rw [bind_of_error first, bind_of_error first]
  | ok unit c' =>
    rw [bind_of_ok first, bind_of_ok first]
    cases second : readBody c.pos unit c' with
    | error e c'' => rw [bind_of_error second, bind_of_error second]
    | ok body c'' =>
      rw [bind_of_ok second, bind_of_ok second]
      rfl

theorem decode_of_error {address : UInt32} {c c' : Cursor} {e : DecodeError}
    (failed : readContent c.pos c = .error e c') : decode address c = .error e c' := by
  rw [decode_eq, failed]

/-- The bytes `bs` are an instruction with content `x`. -/
def Spells (bs : List UInt8) (x : Content) : Prop := ∀ offset, Reads (readContent offset) x bs

-- An instruction takes at least one code unit.
theorem Spells.two_le_length {bs : List UInt8} {x : Content} (h : Spells bs x) :
    2 ≤ bs.length := by
  have ok := (h 0).whole _ (Cursor.sees_behind .empty .empty bs)
  obtain ⟨unit, c', first, -⟩ := bind_eq_ok.mp ok
  have := add_le_of_number first
  simp only [ByteArray.size_append, ByteArray.size_empty, List.size_toByteArray] at this
  omega

/-- Bytes that are an instruction are decoded wherever they stand. -/
theorem decode_of_spells {bs : List UInt8} {x : Content} {c : Cursor} (h : Spells bs x)
    (sees : c.Sees bs) (address : UInt32) :
    decode address c = .ok (x.place c.pos address bs.length) (c.advance bs.length) := by
  rw [decode_eq, (h c.pos).whole c sees]
  simp only [Cursor.pos_advance, Nat.add_sub_cancel_left]

/-- What is decoded is spelled by the bytes that decoding passes. -/
theorem spells_of_decode {address : UInt32} {c c' : Cursor} {i : Instruction}
    (ok : decode address c = .ok i c') :
    ∃ bs x, Spells bs x ∧ c.Sees bs ∧ c' = c.advance bs.length ∧
      i = x.place c.pos address bs.length := by
  rw [decode_eq] at ok
  cases found : readContent c.pos c with
  | error e d => simp only [found] at ok; cases ok
  | ok x d =>
    simp only [found] at ok
    cases ok
    -- even the first code unit could not have been read behind the end
    have pos_le : c.pos ≤ c.data.size := by
      obtain ⟨unit, c', first, -⟩ := bind_eq_ok.mp found
      have := add_le_of_number first
      omega
    obtain ⟨bs, sees, rfl, reads⟩ := (closed_readContent Local.closed).reads pos_le found
    exact ⟨bs, x, reads, sees, rfl, by rw [Cursor.pos_advance, Nat.add_sub_cancel_left]⟩

-- What is decoded at the start of some bytes is spelled by as many of them as decoding passes.
theorem spells_take_of_decode {w : List UInt8} {address : UInt32} {i : Instruction} {c : Cursor}
    (ok : decode address (.start w.toByteArray) = .ok i c) :
    c.pos ≤ w.length ∧ c = (Cursor.start w.toByteArray).advance c.pos ∧
      ∃ x, Spells (w.take c.pos) x ∧ i = x.place 0 address c.pos := by
  obtain ⟨bs, x, spells, ⟨-, more, eq⟩, rfl, rfl⟩ := spells_of_decode ok
  rw [Cursor.rest_start] at eq
  subst eq
  have passed : ((Cursor.start (bs ++ more).toByteArray).advance bs.length).pos = bs.length :=
    Nat.zero_add _
  rw [passed, List.take_left, List.length_append]
  exact ⟨Nat.le_add_right _ _, rfl, x, spells, rfl⟩

-- Decoding moves forward and stays in the data.
theorem lt_of_decode {address : UInt32} {c c' : Cursor} {i : Instruction}
    (ok : decode address c = .ok i c') : c.pos < c'.pos ∧ c'.pos ≤ c.data.size := by
  obtain ⟨bs, x, spells, sees, rfl, -⟩ := spells_of_decode ok
  have := spells.two_le_length
  exact ⟨by rw [Cursor.pos_advance]; omega, sees.add_length_le⟩

/-! ## 3. Failures -/

/-- How decoding the instruction at `offset` may fail. -/
def FailsAt (offset : Nat) (e : DecodeError) : Prop :=
  e = .outOfBounds ∨ ∃ what, e = .malformedInstruction offset what

-- Decoding fails by running out of bytes, or because of the instruction that it began at.
theorem failsAt_of_decode {address : UInt32} {c c' : Cursor} {e : DecodeError}
    (failed : decode address c = .error e c') : FailsAt c.pos e := by
  have content_fails : FailsWith (FailsAt c.pos) (readContent c.pos) :=
    closed_readContent (FailsWith.closed (fun _ => .inl rfl) fun _ what => .inr ⟨what, rfl⟩) c.pos
  rw [decode_eq] at failed
  cases found : readContent c.pos c with
  | ok x d => simp only [found] at failed; cases failed
  | error e' d =>
    simp only [found] at failed
    cases failed
    exact content_fails _ _ _ found

end DalvikCode.Instruction
