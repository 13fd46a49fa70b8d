import DalvikCode.Proofs.Instruction.Tiling

/-!
# How far an instruction reaches

The first code unit of an instruction announces its format, and with it the number of code units
that the instruction takes; only for a payload some of the bytes behind that unit have to be asked.
An instruction is decoded exactly where as many units are present and its register list, if it has
one, is not too long.
-/

namespace DalvikCode

open Reader

/-! ## 1. Readers of known extent -/

/-- From the cursor on, the reader takes `n` bytes, whatever they are.  Where there are less, it
runs out of bytes. -/
structure Takes {α : Type} (r : Reader α) (c : Cursor) (n : Nat) : Prop where
  whole : c.pos + n ≤ c.data.size → ∃ v, r c = .ok v (c.advance n)
  short : c.pos ≤ c.data.size → c.data.size < c.pos + n → ∃ c', r c = .error .outOfBounds c'

theorem TakesAtOnce.takes {α : Type} {r : Reader α} {n : Nat} {f : List UInt8 → α}
    (h : TakesAtOnce r n f) (c : Cursor) : Takes r c n where
  whole fits := by
    obtain ⟨sees, length⟩ := Cursor.sees_take fits
    exact ⟨_, h.whole c _ length sees⟩
  short _ lt := ⟨c, h.short c lt⟩

namespace Takes

variable {α β : Type} {r : Reader α} {c : Cursor} {m n : Nat}

theorem of_eq (h : Takes r c m) (eq : m = n) : Takes r c n := eq ▸ h

theorem pure (v : α) : Takes (Pure.pure v : Reader α) c 0 where
  whole _ := ⟨v, rfl⟩
  short pos_le lt := absurd pos_le (Nat.not_le.mpr lt)

-- What has been read first may be relied on in reading on.
theorem bind_of {f : α → Reader β} (first : Takes r c m)
    (second : ∀ v, r c = .ok v (c.advance m) → Takes (f v) (c.advance m) n) :
    Takes (r >>= f) c (m + n) where
  whole fits := by
    rw [← Nat.add_assoc] at fits
    obtain ⟨v, ok⟩ := first.whole (by omega)
    obtain ⟨w, ok'⟩ := (second v ok).whole fits
    rw [Cursor.advance_advance] at ok'
    exact ⟨w, (bind_of_ok ok).trans ok'⟩
  short pos_le lt := by
    by_cases fits : c.pos + m ≤ c.data.size
    · obtain ⟨v, ok⟩ := first.whole fits
      rw [← Nat.add_assoc] at lt
      obtain ⟨c', failed⟩ := (second v ok).short fits lt
      exact ⟨c', (bind_of_ok ok).trans failed⟩
    · obtain ⟨c', failed⟩ := first.short pos_le (Nat.not_le.mp fits)
      exact ⟨c', bind_of_error failed⟩

theorem bind {f : α → Reader β} (first : Takes r c m)
    (second : ∀ v, Takes (f v) (c.advance m) n) : Takes (r >>= f) c (m + n) :=
  first.bind_of fun v _ => second v

theorem bind_pure (first : Takes r c n) (f : α → β) :
    Takes (r >>= fun v => Pure.pure (f v)) c n :=
  first.bind fun v => pure (f v)

theorem map (h : Takes r c n) (f : α → β) : Takes (f <$> r) c n := by
  rw [map_eq_pure_bind]
  exact h.bind_pure f

-- The number that is read decides about what is read behind it.
theorem number {width : Nat} {f : Nat → Reader β}
    (behind : Takes (f (Bytes.number c.data c.pos width)) (c.advance width) n) :
    Takes (Reader.number width >>= f) c (width + n) := by
  refine ((TakesAtOnce.number width).takes c).bind_of fun v ok => ?_
  unfold Reader.number at ok
  split at ok
  · cases ok
    exact behind
  · cases ok

end Takes

namespace Instruction

/-! ## 2. Announced formats -/

/-- The first code unit under a cursor. -/
def firstUnit (c : Cursor) : Nat := Bytes.number c.data c.pos 2

/-- An instruction of this format starts with this code unit. -/
def Announces (unit : Nat) : Format → Prop
  | .operands format => OperandFormat.ofOpcode? (UInt8.ofNat unit) = some format ∧
      (UInt8.ofNat unit = 0 → unit = 0)
  | .payload .packedSwitch => unit = 0x0100
  | .payload .sparseSwitch => unit = 0x0200
  | .payload .array => unit = 0x0300

theorem announces_payload_iff {unit : Nat} {kind : PayloadKind} :
    Announces unit (.payload kind) ↔ unit = kind.ident := by
  cases kind <;> exact .rfl

/-- The number of code units that an instruction of this format has under a cursor.  The tables of a
switch have as many entries as the second code unit says, and those of an array as many elements as
the two units behind the element width say. -/
def unitsAt (c : Cursor) : Format → Nat
  | .operands format => format.units
  | .payload .packedSwitch => 4 + 2 * Bytes.number c.data (c.pos + 2) 2
  | .payload .sparseSwitch => 2 + 4 * Bytes.number c.data (c.pos + 2) 2
  | .payload .array =>
    4 + (Bytes.number c.data (c.pos + 2) 2 * Bytes.number c.data (c.pos + 4) 4 + 1) / 2

/-- The formats with a register list, whose length is in the highest four bits of the first code
unit. -/
def HasList (format : Format) : Prop := format = .operands .f35c ∨ format = .operands .f45cc

/-- A valid instruction of this format stands under the cursor, with all of its code units. -/
structure Complete (c : Cursor) (format : Format) : Prop where
  unit_present : 2 ≤ c.remaining
  announced : Announces (firstUnit c) format
  present : 2 * unitsAt c format ≤ c.remaining
  count_le : HasList format → firstUnit c / 0x1000 ≤ 5

/-- The bytes under the cursor show what is wrong with the instruction that they begin. -/
inductive Shows (c : Cursor) : Malformation → Prop where
  | unusedOpcode (present : 2 ≤ c.remaining)
      (unused : OperandFormat.ofOpcode? (UInt8.ofNat (firstUnit c)) = none) :
      Shows c (.unusedOpcode (UInt8.ofNat (firstUnit c)))
  | unknownPayload (present : 2 ≤ c.remaining)
      (table : UInt8.ofNat (firstUnit c) = 0 ∧ firstUnit c ≠ 0)
      (unknown : firstUnit c ≠ 0x0100 ∧ firstUnit c ≠ 0x0200 ∧ firstUnit c ≠ 0x0300) :
      Shows c (.unknownPayload (firstUnit c))
  | registerCount {format : Format} (present : 4 ≤ c.remaining)
      (announced : Announces (firstUnit c) format) (list : HasList format)
      (gt : 5 < firstUnit c / 0x1000) :
      Shows c (.registerCount (firstUnit c / 0x1000))

theorem ofIdent?_eq_none {unit : Nat}
    (unknown : unit ≠ 0x0100 ∧ unit ≠ 0x0200 ∧ unit ≠ 0x0300) :
    PayloadKind.ofIdent? unit = none := by
  obtain ⟨packed, sparse, array⟩ := unknown
  cases found : PayloadKind.ofIdent? unit with
  | none => rfl
  | some kind =>
    have eq := ident_of_ofIdent? found
    cases kind with
    | packedSwitch => exact absurd eq.symm packed
    | sparseSwitch => exact absurd eq.symm sparse
    | array => exact absurd eq.symm array

-- Every code unit announces a format, or it is invalid on its own.
theorem announces_or_invalid (unit : Nat) : (∃ format, Announces unit format) ∨
    OperandFormat.ofOpcode? (UInt8.ofNat unit) = none ∨
    (UInt8.ofNat unit = 0 ∧ unit ≠ 0) ∧ unit ≠ 0x0100 ∧ unit ≠ 0x0200 ∧ unit ≠ 0x0300 := by
  cases used : OperandFormat.ofOpcode? (UInt8.ofNat unit) with
  | none => exact .inr (.inl rfl)
  | some format =>
    by_cases table : UInt8.ofNat unit = 0 ∧ unit ≠ 0
    · by_cases known : ∃ kind, Announces unit (.payload kind)
      · obtain ⟨kind, announced⟩ := known
        exact .inl ⟨.payload kind, announced⟩
      · rw [not_exists] at known
        exact .inr (.inr ⟨table, known .packedSwitch, known .sparseSwitch, known .array⟩)
    · exact .inl ⟨.operands format, used,
        fun zero => Decidable.byContradiction fun ne => table ⟨zero, ne⟩⟩

theorem announces_unique {unit : Nat} {f g : Format} (hf : Announces unit f)
    (hg : Announces unit g) : f = g := by
  -- the first code unit of a payload is that of a no-operation, but it is not zero
  have apart (format : OperandFormat) (kind : PayloadKind)
      (operands : Announces unit (.operands format)) : ¬ Announces unit (.payload kind) := by
    rw [announces_payload_iff]
    rintro rfl
    obtain ⟨zero, ne⟩ := ofNat_ident kind
    exact ne (operands.2 zero)
  cases f with
  | operands format =>
    cases g with
    | operands format' => rw [format_unique hf.1 hg.1]
    | payload kind => exact absurd hg (apart format kind hf)
  | payload kind =>
    cases g with
    | operands format => exact absurd hf (apart format kind hg)
    | payload kind' =>
      rw [announces_payload_iff] at hf hg
      have same := PayloadKind.ofIdent?_ident kind'
      rw [← hg, hf, PayloadKind.ofIdent?_ident] at same
      rw [Option.some.inj same]

/-! ## 3. Extents of the parts -/

theorem takes_readRegisterList {unit : Nat} (count_le : unit / 0x1000 ≤ 5) (offset : Nat)
    (c : Cursor) : Takes (readRegisterList offset unit) c 2 := by
  unfold readRegisterList
  rw [if_neg (Nat.not_lt.mpr count_le)]
  exact ((TakesAtOnce.number 2).takes c).bind fun _ => .pure _

theorem takes_readOperands {offset unit : Nat} {opcode : UInt8} (format : OperandFormat)
    (count_le : HasList (.operands format) → unit / 0x1000 ≤ 5) (c : Cursor) :
    Takes (readOperands offset opcode unit format) c (2 * (format.units - 1)) := by
  have bytes (width : Nat) (c : Cursor) := (TakesAtOnce.number width).takes c
  have list (h : HasList (.operands format)) := takes_readRegisterList (count_le h) offset
  cases format with
  | f10x | f10t | f11n | f11x | f12x => exact .pure _
  | f21c | f22c => exact (bytes 2 c).bind_pure _
  | f20t | f21h | f21s | f21t | f22s | f22t | f22x => exact ((bytes 2 c).map _).bind_pure _
  | f22b => exact (bytes 1 c).bind fun _ => ((bytes 1 _).map _).bind_pure _
  | f23x => exact (bytes 1 c).bind fun _ => (bytes 1 _).bind_pure _
  | f30t | f31c | f31i | f31t => exact ((bytes 4 c).map _).bind_pure _
  | f32x => exact ((bytes 2 c).map _).bind fun _ => ((bytes 2 _).map _).bind_pure _
  | f35c => exact (bytes 2 c).bind fun _ => (list (.inl rfl) _).bind_pure _
  | f3rc => exact (bytes 2 c).bind fun _ => ((bytes 2 _).map _).bind_pure _
  | f45cc =>
    exact (bytes 2 c).bind fun _ => (list (.inr rfl) _).bind fun _ =>
      ((bytes 2 _).map _).bind_pure _
  | f4rcc =>
    exact (bytes 2 c).bind fun _ => ((bytes 2 _).map _).bind fun _ =>
      ((bytes 2 _).map _).bind_pure _
  | f51l => exact ((bytes 8 c).map _).bind_pure _

-- The tables of a payload begin behind its first code unit, which is counted with them.
theorem takes_readPayload (kind : PayloadKind) (c : Cursor) :
    Takes (readPayload kind) (c.advance 2) (2 * (unitsAt c (.payload kind) - 1)) := by
  have taken (n : Nat) (c : Cursor) := (TakesAtOnce.take n).takes c
  cases kind with
  | packedSwitch =>
    refine Takes.of_eq (.number (((TakesAtOnce.number 4).takes _).map _ |>.bind fun _ =>
      (taken _ _).bind_pure _)) ?_
    simp only [unitsAt, Cursor.data_advance, Cursor.pos_advance]
    omega
  | sparseSwitch =>
    refine Takes.of_eq (.number ((taken _ _).bind fun _ => (taken _ _).bind_pure _)) ?_
    simp only [unitsAt, Cursor.data_advance, Cursor.pos_advance]
    omega
  | array =>
    have width_lt := Bytes.number_lt c.data (c.pos + 2) 2
    have count_lt := Bytes.number_lt c.data (c.pos + 4) 4
    simp only [readPayload, u16, u32, bind_map_left]
    refine Takes.of_eq (.number (.number ((taken _ _).bind fun _ =>
      ((TakesAtOnce.skip _).takes _).bind_pure _))) ?_
    simp only [unitsAt, Cursor.data_advance, Cursor.pos_advance, Nat.add_assoc]
    rw [UInt16.toNat_ofNat_of_lt' width_lt, UInt32.toNat_ofNat_of_lt' count_lt]
    omega

theorem takes_readBody {offset : Nat} {c : Cursor} {format : Format}
    (announced : Announces (firstUnit c) format)
    (count_le : HasList format → firstUnit c / 0x1000 ≤ 5) :
    Takes (readBody offset (firstUnit c)) (c.advance 2) (2 * (unitsAt c format - 1)) := by
  cases format with
  | operands format =>
    obtain ⟨used, zero⟩ := announced
    simp only [readBody, used]
    rw [if_neg fun table => table.2 (zero table.1)]
    exact (takes_readOperands format count_le _).bind_pure _
  | payload kind =>
    have eq := announces_payload_iff.mp announced
    obtain ⟨zero, ne⟩ := ofNat_ident kind
    have used : OperandFormat.ofOpcode? 0 = some .f10x := rfl
    simp only [readBody, eq, zero, used, PayloadKind.ofIdent?_ident]
    rw [if_pos ⟨trivial, ne⟩]
    exact (takes_readPayload kind c).bind_pure _

theorem takes_readContent {c : Cursor} {format : Format} (offset : Nat)
    (announced : Announces (firstUnit c) format)
    (count_le : HasList format → firstUnit c / 0x1000 ≤ 5) :
    Takes (readContent offset) c (2 * unitsAt c format) := by
  have positive : 0 < unitsAt c format := by
    unfold unitsAt
    split
    · next format => cases format <;> decide
    all_goals omega
  exact Takes.of_eq (.number ((takes_readBody announced count_le).bind_pure _)) (by omega)

/-! ## 4. Outcomes -/

section
variable {c : Cursor}

theorem number_firstUnit (present : 2 ≤ c.remaining) :
    number 2 c = .ok (firstUnit c) (c.advance 2) := by
  unfold Cursor.remaining at present
  rw [number, if_pos (by omega)]
  rfl

theorem decode_of_readBody {address : UInt32} {e : DecodeError} {c' : Cursor}
    (present : 2 ≤ c.remaining)
    (failed : readBody c.pos (firstUnit c) (c.advance 2) = .error e c') :
    decode address c = .error e c' :=
  decode_of_error ((bind_of_ok (number_firstUnit present)).trans (bind_of_error failed))

-- A register list that is too long is refused behind the index in front of it.
theorem readBody_of_gt {offset unit : Nat} {format : Format} (announced : Announces unit format)
    (list : HasList format) (gt : 5 < unit / 0x1000) :
    (∀ n c', number 2 c = .ok n c' → readBody offset unit c =
        .error (.malformedInstruction offset (.registerCount (unit / 0x1000))) c') ∧
      ∀ e c', number 2 c = .error e c' → readBody offset unit c = .error e c' := by
  have refused (c : Cursor) : readRegisterList offset unit c =
      .error (.malformedInstruction offset (.registerCount (unit / 0x1000))) c := by
    unfold readRegisterList
    rw [if_pos gt]
    rfl
  rcases list with rfl | rfl
  all_goals
    obtain ⟨used, zero⟩ := announced
    simp only [readBody, used]
    rw [if_neg fun table => table.2 (zero table.1)]
    constructor
    · intro n c' first
      exact bind_of_error ((bind_of_ok first).trans (bind_of_error (refused c')))
    · intro e c' first
      exact bind_of_error (bind_of_error first)

theorem decode_of_complete (address : UInt32) {format : Format} (complete : Complete c format) :
    ∃ i, decode address c = .ok i (c.advance (2 * unitsAt c format)) := by
  obtain ⟨unit_present, announced, present, count_le⟩ := complete
  unfold Cursor.remaining at unit_present present
  obtain ⟨x, ok⟩ := (takes_readContent c.pos announced count_le).whole (by omega)
  exact ⟨_, by rw [decode_eq, ok]⟩

theorem decode_of_shows (address : UInt32) {what : Malformation} (shows : Shows c what) :
    ∃ c', decode address c = .error (.malformedInstruction c.pos what) c' := by
  cases shows with
  | unusedOpcode present unused =>
    refine ⟨c.advance 2, decode_of_readBody present ?_⟩
    simp only [readBody, unused]
    rfl
  | unknownPayload present table unknown =>
    have used : OperandFormat.ofOpcode? (UInt8.ofNat (firstUnit c)) = some .f10x := by
      rw [table.1]
      rfl
    refine ⟨c.advance 2, decode_of_readBody present ?_⟩
    simp only [readBody, used]
    rw [if_pos table, ofIdent?_eq_none unknown]
    rfl
  | registerCount present announced list gt =>
    unfold Cursor.remaining at present
    have first := number_firstUnit (c := c.advance 2) (by
      unfold Cursor.remaining
      rw [Cursor.data_advance, Cursor.pos_advance]
      omega)
    exact ⟨_, decode_of_readBody (by unfold Cursor.remaining; omega)
      ((readBody_of_gt announced list gt).1 _ _ first)⟩

/-- Under a cursor stands a complete instruction, or one that is shown to be wrong, or decoding runs
out of bytes. -/
theorem complete_or_shows (within : c.pos ≤ c.data.size) (address : UInt32) :
    (∃ format, Complete c format) ∨ (∃ what, Shows c what) ∨
      ∃ c', decode address c = .error .outOfBounds c' := by
  by_cases present : 2 ≤ c.remaining
  · rcases announces_or_invalid (firstUnit c) with ⟨format, announced⟩ | unused | ⟨table, unknown⟩
    · by_cases count_le : HasList format → firstUnit c / 0x1000 ≤ 5
      · by_cases all : 2 * unitsAt c format ≤ c.remaining
        · exact .inl ⟨format, present, announced, all, count_le⟩
        · unfold Cursor.remaining at all
          obtain ⟨c', failed⟩ :=
            (takes_readContent c.pos announced count_le).short within (by omega)
          exact .inr (.inr ⟨c', decode_of_error failed⟩)
      · obtain ⟨list, gt⟩ := Classical.not_imp.mp count_le
        have gt := Nat.not_le.mp gt
        by_cases both : 4 ≤ c.remaining
        · exact .inr (.inl ⟨_, .registerCount both announced list gt⟩)
        · unfold Cursor.remaining at both
          have short := (TakesAtOnce.number 2).short (c.advance 2) (by
            rw [Cursor.data_advance, Cursor.pos_advance]
            omega)
          exact .inr (.inr
            ⟨_, decode_of_readBody present ((readBody_of_gt announced list gt).2 _ _ short)⟩)
    · exact .inr (.inl ⟨_, .unusedOpcode present unused⟩)
    · exact .inr (.inl ⟨_, .unknownPayload present table unknown⟩)
  · unfold Cursor.remaining at present
    have short := (TakesAtOnce.number 2).short c (by omega)
    exact .inr (.inr ⟨c, decode_of_error (bind_of_error short)⟩)

theorem decode_ok_iff (within : c.pos ≤ c.data.size) (address : UInt32) :
    (∃ i c', decode address c = .ok i c') ↔ ∃ format, Complete c format := by
  constructor
  · rintro ⟨i, c', ok⟩
    rcases complete_or_shows within address with complete | ⟨what, shows⟩ | ⟨d, failed⟩
    · exact complete
    · obtain ⟨d, failed⟩ := decode_of_shows address shows
      cases ok.symm.trans failed
    · cases ok.symm.trans failed
  · rintro ⟨format, complete⟩
    obtain ⟨i, ok⟩ := decode_of_complete address complete
    exact ⟨i, _, ok⟩

theorem shows_of_decode (within : c.pos ≤ c.data.size) {address : UInt32} {e : DecodeError}
    {c' : Cursor} (failed : decode address c = .error e c') :
    e = .outOfBounds ∨ ∃ what, Shows c what ∧ e = .malformedInstruction c.pos what := by
  rcases complete_or_shows within address with ⟨format, complete⟩ | ⟨what, shows⟩ | ⟨d, failed'⟩
  · obtain ⟨i, ok⟩ := decode_of_complete address complete
    cases failed.symm.trans ok
  · obtain ⟨d, failed'⟩ := decode_of_shows address shows
    cases failed.symm.trans failed'
    exact .inr ⟨what, shows, rfl⟩
  · cases failed.symm.trans failed'
    exact .inl rfl

-- The format of what was decoded is the one that was announced.
theorem announces_of_decode {address : UInt32} {c' : Cursor} {i : Instruction}
    (ok : decode address c = .ok i c') : Announces (firstUnit c) i.format := by
  rw [decode_eq] at ok
  cases found : readContent c.pos c with
  | error e d => simp only [found] at ok; cases ok
  | ok x d =>
    simp only [found] at ok
    cases ok
    obtain ⟨unit, c₁, first, behind⟩ := bind_eq_ok.mp found
    obtain ⟨⟨format, operands⟩, c₂, read, result⟩ := bind_eq_ok.mp behind
    cases result
    have fits := add_le_of_number first
    have lt := lt_of_number first
    have eq := number_firstUnit (c := c) (by unfold Cursor.remaining; omega)
    rw [first] at eq
    cases eq
    obtain ⟨bs, body, -⟩ := (parses_readBody lt c.pos).accepts fits read
    cases format with
    | operands format => exact body.1
    | payload kind => exact announces_payload_iff.mpr body.1

end

theorem isPayload_iff {opcode : UInt8} {format : Format} {operands : Operands}
    (encodable : Encodable opcode format operands) :
    format.isPayload ↔ ∃ table, operands = .payload table := by
  cases format with
  | operands format =>
    refine iff_of_false Bool.false_ne_true ?_
    rintro ⟨table, rfl⟩
    have fits := encodable.2
    cases format <;> exact fits
  | payload kind =>
    cases operands with
    | payload table => exact iff_of_true rfl ⟨table, rfl⟩
    | _ => exact encodable.elim

/-- Decoding succeeds exactly where a complete instruction stands, and moves over the code units
that belong to it: as many as its format says, or as its tables say.  Where decoding fails, it runs
out of bytes, or the bytes show what is wrong with the instruction; and what the bytes show is
reported, no matter how many are missing behind them. -/
theorem decode_extent {c : Cursor} (within : c.pos ≤ c.data.size) (address : UInt32) :
    ((∃ i c', decode address c = .ok i c') ↔ ∃ format, Complete c format) ∧
    (∀ i c', decode address c = .ok i c' →
      Complete c i.format ∧ i.offset = c.pos ∧ i.address = address ∧
      c' = c.advance (2 * i.size) ∧ i.size = unitsAt c i.format ∧
      i.size = units i.format i.operands ∧
      (i.format.isPayload ↔ ∃ table, i.operands = .payload table)) ∧
    (∀ e c', decode address c = .error e c' →
      e = .outOfBounds ∨ ∃ what, Shows c what ∧ e = .malformedInstruction c.pos what) ∧
    ∀ what, Shows c what →
      ∃ c', decode address c = .error (.malformedInstruction c.pos what) c' := by
  refine ⟨decode_ok_iff within address, fun i c' ok => ?_, fun e c' => shows_of_decode within,
    fun what => decode_of_shows address⟩
  obtain ⟨format, complete⟩ := (decode_ok_iff within address).mp ⟨i, c', ok⟩
  obtain rfl := announces_unique complete.announced (announces_of_decode ok)
  obtain ⟨j, ok'⟩ := decode_of_complete address complete
  obtain ⟨bs, x, spells, sees, reached, rfl⟩ := spells_of_decode ok
  cases ok'.symm.trans ok
  -- the bytes that were passed are those that were announced, and those that are written
  have announced : 2 * unitsAt c x.format = bs.length :=
    Nat.add_left_cancel (congrArg Cursor.pos reached)
  have written := spells.length_eq
  have size_at : (x.place c.pos address bs.length).size = unitsAt c x.format := by
    show bs.length / 2 = _
    omega
  have size : (x.place c.pos address bs.length).size = units x.format x.operands := by
    show bs.length / 2 = _
    omega
  exact ⟨complete, rfl, rfl, by rw [size_at]; rfl, size_at, size,
    isPayload_iff (spells_iff_written.mp spells).1⟩

/-- Three elements of one byte with the byte that fills them up, and a call whose list declares six
registers, of which only the index is present. -/
def arrayThenCall : ByteArray :=
  ⟨#[0x00, 0x03, 0x01, 0x00, 0x03, 0x00, 0x00, 0x00, 0xaa, 0xbb, 0xcc, 0x00, 0x6e, 0x60, 0x01,
    0x00]⟩

theorem decode_extent_of_arrayThenCall :
    (∃ i, decode 0 (.start arrayThenCall) = .ok i ⟨arrayThenCall, 12⟩ ∧ i.size = 6) ∧
      ∃ c', decode 6 ⟨arrayThenCall, 12⟩ =
        .error (.malformedInstruction 12 (.registerCount 6)) c' := by
  have first : (Cursor.start arrayThenCall).pos ≤ arrayThenCall.size := by decide
  have second : Cursor.pos ⟨arrayThenCall, 12⟩ ≤ arrayThenCall.size := by decide
  have complete : Complete (.start arrayThenCall) (.payload .array) :=
    ⟨by decide, rfl, by decide, by rintro (list | list) <;> cases list⟩
  have announced : Announces (firstUnit ⟨arrayThenCall, 12⟩) (.operands .f35c) :=
    ⟨rfl, by decide⟩
  have shows : Shows ⟨arrayThenCall, 12⟩ (.registerCount 6) :=
    .registerCount (by decide) announced (.inl rfl) (by decide)
  obtain ⟨ok_iff, extent, -, -⟩ := decode_extent first 0
  obtain ⟨-, -, -, refused⟩ := decode_extent second 6
  obtain ⟨i, c', ok⟩ := ok_iff.mpr ⟨_, complete⟩
  obtain ⟨found, -, -, reached, size, -⟩ := extent i c' ok
  rw [announces_unique found.announced complete.announced] at size
  have six : i.size = 6 := size
  rw [reached, six] at ok
  exact ⟨⟨i, ok, six⟩, refused _ shows⟩

end Instruction

end DalvikCode
