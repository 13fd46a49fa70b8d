import DalvikCode.Proofs.Trapping.Instruction

/-!
# Payload tables on machine words

An entry of a switch is found from its index, and the bounds of its words are computed without a
check.  They are words because the index counts the chunks of a slice.
-/

namespace DalvikCode.Trapping

/-! ## 1. Entries and elements -/

/-- The bytes of a slice from `start` to `stop`, if it has them. -/
def get? (data : ByteArray) (start stop : Nat) : Option ByteArray :=
  if start ≤ stop ∧ stop ≤ data.size then some (data.extract start stop) else none

/-- The signed word in the first four bytes of a slice. -/
def word (bytes : ByteArray) : Except Trap Int32 := do
  return Bytes.i32 (← range bytes 0 4) 0

/-- The key of the `i`-th entry of a switch. -/
def switchKey (p : Payload) (i : Nat) : Except Trap Int32 := do
  let start ← mul 64 i 4
  let stop ← add 64 (← mul 64 i 4) 4
  match get? p.keys start stop with
  | some bytes => word bytes
  | none => return p.firstKey + Int32.ofNat i

/-- The `i`-th entry of a switch, whose target stands in the `i`-th chunk of the target table. -/
def switchEntry (p : Payload) (i : Nat) : Except Trap (Int32 × Int32) := do
  let key ← switchKey p i
  return (key, ← word (p.targets.extract (4 * i) (4 * i + 4)))

def switchEntries (p : Payload) : Except Trap (List (Int32 × Int32)) :=
  (List.range (p.targets.size / 4)).mapM (switchEntry p)

/-- The bytes of the `i`-th array element; every operation is checked. -/
def element? : Payload → Nat → Option ByteArray
  | .array elementWidth _ data, i => do
    let start ← checkedMul i elementWidth.toNat
    get? data start (← checkedAdd start elementWidth.toNat)
  | _, _ => none

/-- The tables of a payload are slices. -/
def Sliced : Payload → Prop
  | .packedSwitch _ targets => targets.size < 2 ^ 63
  | .sparseSwitch keys targets => keys.size < 2 ^ 63 ∧ targets.size < 2 ^ 63
  | .array _ _ data => data.size < 2 ^ 63

theorem Sliced.targets_lt {p : Payload} (h : Sliced p) : p.targets.size < 2 ^ 63 := by
  cases p with
  | packedSwitch firstKey targets => exact h
  | sparseSwitch keys targets => exact h.2
  | array elementWidth elementCount data => exact Nat.two_pow_pos 63

theorem word_extract {table : ByteArray} {i : Nat} (h : i + 4 ≤ table.size) :
    word (table.extract i (i + 4)) = .ok (Bytes.i32 table i) := by
  have size : (table.extract i (i + 4)).size = 4 := by
    rw [ByteArray.size_extract]
    omega
  have fits : 0 + 4 ≤ (table.extract i (i + 4)).size := Nat.le_of_eq size.symm
  have inner := number_extract fits
  rw [number_extract h, Nat.zero_add] at inner
  rw [word, range_of_le (Nat.zero_le 4) (Nat.le_of_eq size.symm)]
  show Except.ok (Int32.ofInt (twosComplement 32 _)) = _
  rw [inner, Bytes.i32]

theorem switchKey_eq {p : Payload} {i : Nat} (word : 4 * i + 4 < 2 ^ 64) :
    switchKey p i = .ok (p.key i) := by
  -- the bounds are computed before the key table is asked for them
  rw [switchKey, mul_of_lt (by omega)]
  show (add 64 (i * 4) 4 >>= _) = _
  rw [add_of_lt (by omega), Nat.mul_comm i 4, Payload.key]
  show (match get? p.keys (4 * i) (4 * i + 4) with
    | some bytes => Trapping.word bytes
    | none => _) = _
  rw [get?]
  by_cases spelled : 4 * i + 4 ≤ p.keys.size
  · rw [if_pos ⟨Nat.le_add_right _ _, spelled⟩, if_pos spelled]
    exact word_extract spelled
  · rw [if_neg fun h => spelled h.2, if_neg spelled]
    rfl

theorem switchEntry_eq {p : Payload} (sliced : Sliced p) {i : Nat} (lt : i < p.targets.size / 4) :
    switchEntry p i = .ok (p.key i, Bytes.i32 p.targets (4 * i)) := by
  -- an index that counts chunks of the target table is below `2 ^ 61`
  have targets_lt := sliced.targets_lt
  rw [switchEntry, switchKey_eq (by omega), word_extract (by omega)]
  rfl

-- A loop whose steps do not trap does not trap.
theorem mapM_of_ok {α β ε : Type} {f : α → Except ε β} {g : α → β} (xs : List α)
    (h : ∀ x ∈ xs, f x = .ok (g x)) : xs.mapM f = .ok (xs.map g) := by
  induction xs with
  | nil => rfl
  | cons x xs ih =>
    rw [List.mapM_cons, h x List.mem_cons_self, ih fun y hy => h y (List.mem_cons_of_mem x hy)]
    rfl

theorem switchEntries_eq {p : Payload} (sliced : Sliced p) :
    switchEntries p = .ok p.switchEntries :=
  mapM_of_ok _ fun _ mem => switchEntry_eq sliced (List.mem_range.mp mem)

theorem element?_eq {p : Payload} (sliced : Sliced p) (i : Nat) : element? p i = p.element? i := by
  cases p with
  | packedSwitch firstKey targets => rfl
  | sparseSwitch keys targets => rfl
  | array elementWidth elementCount data =>
    have size_lt : data.size < 2 ^ 63 := sliced
    rw [element?, Payload.element?, Bytes.slice]
    by_cases fits : i * elementWidth.toNat + elementWidth.toNat ≤ data.size
    -- what lies in the data has bounds that are words
    · have start_lt : i * elementWidth.toNat < 2 ^ 64 := by omega
      have stop_lt : i * elementWidth.toNat + elementWidth.toNat < 2 ^ 64 := by omega
      rw [checkedMul, if_pos start_lt, if_pos fits]
      show (checkedAdd _ _).bind _ = _
      rw [checkedAdd, if_pos stop_lt]
      exact if_pos ⟨Nat.le_add_right _ _, fits⟩
    -- otherwise one of the checks fails, or the slice does not have the range
    · rw [checkedMul, if_neg fits]
      split
      · show (checkedAdd _ _).bind _ = _
        rw [checkedAdd]
        split
        · exact if_neg fun h => fits h.2
        · rfl
      · rfl

/-! ## 2. What decoding returns -/

/-- In memory, the reader only returns what `P` admits. -/
def Gives {α : Type} (P : α → Prop) (r : Reader α) : Prop :=
  ∀ c c' v, InMemory c → r c = .ok v c' → P v ∧ InMemory c'

namespace Gives

variable {α β : Type}

theorem pure {P : α → Prop} {v : α} (h : P v) : Gives P (Pure.pure v) := by
  intro c c' v' memory ok
  cases ok
  exact ⟨h, memory⟩

theorem throw {P : α → Prop} (e : DecodeError) : Gives P (MonadExcept.throw e : Reader α) := by
  intro c c' v memory ok
  cases ok

theorem bind {P : α → Prop} {Q : β → Prop} {r : Reader α} {f : α → Reader β} (first : Gives P r)
    (second : ∀ a, P a → Gives Q (f a)) : Gives Q (r >>= f) := by
  intro c c'' b memory ok
  obtain ⟨a, c', ok_r, ok_f⟩ := Reader.bind_eq_ok.mp ok
  obtain ⟨admitted, memory'⟩ := first c c' a memory ok_r
  exact second a admitted c' c'' b memory' ok_f

-- Whatever has been read, the cursor stays in memory.
theorem after {Q : β → Prop} {r : Nat → Reader α} (h : Local r) (place : Nat) {f : α → Reader β}
    (second : ∀ a, Gives Q (f a)) : Gives Q (r place >>= f) := by
  refine bind (P := fun _ => True) (fun c c' a memory ok => ⟨trivial, ?_⟩) fun a _ => second a
  exact (forward_of_local h place memory ok).1

theorem here {Q : β → Prop} {f : Nat → Reader β} (h : ∀ place, Gives Q (f place)) :
    Gives Q (Reader.position >>= f) := fun c => h c.pos c

-- Bytes that are taken out of a slice are a slice.
theorem take (n : Nat) : Gives (fun bytes : ByteArray => bytes.size < 2 ^ 63) (Reader.take n) := by
  intro c c' bytes memory ok
  refine ⟨?_, (forward_of_local (.take n) 0 memory ok).1⟩
  have size := memory.size_lt
  rw [Reader.take] at ok
  split at ok
  · cases ok
    show (c.data.extract c.pos (c.pos + n)).size < 2 ^ 63
    rw [ByteArray.size_extract]
    omega
  · cases ok

end Gives

/-- The tables among the operands are slices. -/
def SlicedOperands : Operands → Prop
  | .payload p => Sliced p
  | _ => True

theorem gives_readPayload (kind : PayloadKind) : Gives Sliced (Instruction.readPayload kind) := by
  cases kind with
  | packedSwitch =>
    exact .after (.number 2) 0 fun _ => .after (.scalar .i32) 0 fun _ => .bind (.take _) fun _ lt =>
      .pure lt
  | sparseSwitch =>
    exact .after (.number 2) 0 fun _ => .bind (.take _) fun _ keys_lt => .bind (.take _)
      fun _ targets_lt => .pure ⟨keys_lt, targets_lt⟩
  | array =>
    exact .after .u16 0 fun _ => .after .u32 0 fun _ => .bind (.take _) fun _ lt =>
      .after (.skip _) 0 fun _ => .pure lt

theorem gives_readOperands (offset : Nat) (opcode : UInt8) (unit : Nat) (format : OperandFormat) :
    Gives SlicedOperands (Instruction.readOperands offset opcode unit format) := by
  have list := Instruction.closed_readRegisterList Local.closed unit
  cases format with
  | f10x | f10t | f11n | f11x | f12x => exact .pure trivial
  | f20t | f21h | f21s | f21t | f22s | f22t => exact .after (.scalar .i16) 0 fun _ => .pure trivial
  | f21c | f22c => exact .after (.number 2) 0 fun _ => .pure trivial
  | f22b => exact .after (.number 1) 0 fun _ => .after (.scalar .i8) 0 fun _ => .pure trivial
  | f22x => exact .after .u16 0 fun _ => .pure trivial
  | f23x => exact .after (.number 1) 0 fun _ => .after (.number 1) 0 fun _ => .pure trivial
  | f30t | f31i | f31t => exact .after (.scalar .i32) 0 fun _ => .pure trivial
  | f31c => exact .after .u32 0 fun _ => .pure trivial
  | f32x => exact .after .u16 0 fun _ => .after .u16 0 fun _ => .pure trivial
  | f35c => exact .after (.number 2) 0 fun _ => .after list offset fun _ => .pure trivial
  | f3rc => exact .after (.number 2) 0 fun _ => .after .u16 0 fun _ => .pure trivial
  | f45cc =>
    exact .after (.number 2) 0 fun _ => .after list offset fun _ => .after .u16 0 fun _ =>
      .pure trivial
  | f4rcc =>
    exact .after (.number 2) 0 fun _ => .after .u16 0 fun _ => .after .u16 0 fun _ => .pure trivial
  | f51l => exact .after (.scalar .i64) 0 fun _ => .pure trivial

theorem gives_readBody (offset unit : Nat) :
    Gives (fun body => SlicedOperands body.2) (Instruction.readBody offset unit) := by
  simp only [Instruction.readBody]
  cases OperandFormat.ofOpcode? (UInt8.ofNat unit) with
  | none => exact .throw _
  | some format =>
    show Gives _ (if _ then _ else _)
    split
    · cases PayloadKind.ofIdent? unit with
      | none => exact .throw _
      | some kind => exact .bind (gives_readPayload kind) fun _ sliced => .pure sliced
    · exact .bind (gives_readOperands offset _ unit format) fun _ sliced => .pure sliced

theorem gives_decode (address : UInt32) :
    Gives (fun i => SlicedOperands i.operands) (Instruction.decode address) :=
  .here fun offset => .after (.number 2) 0 fun unit => .bind (gives_readBody offset unit)
    fun _ sliced => .here fun _ => .pure sliced

end DalvikCode.Trapping
