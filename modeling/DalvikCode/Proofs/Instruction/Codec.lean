import DalvikCode.Proofs.Instruction.Fields

/-!
# Instructions, written and read back

An instruction is read back out of its encoding, and encoding an instruction that was read gives the
bytes that it was read from.  The second holds up to a few bytes that carry nothing: `Ignores` lists
them, and `Written` says which bytes an instruction is read from because of them.
-/

namespace DalvikCode

/-! ## 1. Payloads -/

namespace Payload

/-- The bytes of a payload behind its first code unit, without the byte that fills it up. -/
def table : Payload → List UInt8
  | packedSwitch firstKey targets =>
    Bytes.ofNumber 2 (targets.size / 4) ++ Bytes.ofSigned 4 firstKey.toInt ++ targets.data.toList
  | sparseSwitch keys targets =>
    Bytes.ofNumber 2 (keys.size / 4) ++ keys.data.toList ++ targets.data.toList
  | array elementWidth elementCount data =>
    Bytes.ofNumber 2 elementWidth.toNat ++ Bytes.ofNumber 4 elementCount.toNat ++ data.data.toList

/-- The number of bytes that fill a payload up to a whole code unit. -/
def padding : Payload → Nat
  | packedSwitch .. | sparseSwitch .. => 0
  | array _ _ data => data.size % 2

theorem encode_eq (p : Payload) :
    p.encode = Bytes.ofNumber 2 p.kind.ident ++ p.table ++ List.replicate p.padding 0 := by
  cases p <;> simp only [encode, table, padding, kind, PayloadKind.ident, List.append_assoc,
    List.replicate_zero, List.append_nil]

end Payload

namespace Instruction

open Reader

theorem ident_of_ofIdent? {unit : Nat} {kind : PayloadKind}
    (h : PayloadKind.ofIdent? unit = some kind) : kind.ident = unit := by
  have found := List.find?_some h
  exact beq_iff_eq.mp found

theorem parses_readPayload (kind : PayloadKind) : Parses (readPayload kind) fun p bs =>
    (p.kind = kind ∧ p.Fits) ∧ ∃ pad, pad.length = p.padding ∧ bs = p.table ++ pad := by
  cases kind with
  | packedSwitch =>
    refine Parses.congr (.bind (.number 2) fun size => .bind_map
      (k := fun key => take (4 * size) >>= fun targets => pure (Payload.packedSwitch key targets))
      (.int32 rfl (by decide)) fun key => (Parses.take _).bind_pure _) fun p bs => ?_
    constructor
    · rintro ⟨size, _, _, ⟨small, rfl⟩, ⟨key, _, _, ⟨-, rfl⟩, ⟨targets, ⟨length, rfl⟩, rfl⟩, rfl⟩,
        rfl⟩
      obtain rfl : targets.size / 4 = size := by omega
      refine ⟨⟨rfl, by omega, small⟩, [], rfl, ?_⟩
      rw [Payload.table, List.append_nil, List.append_assoc]
      rfl
    · rintro ⟨⟨is_kind, fits⟩, pad, filled, rfl⟩
      cases p with
      | packedSwitch key targets =>
        obtain rfl := List.eq_nil_of_length_eq_zero filled
        refine ⟨targets.size / 4, _, _, ⟨fits.2, rfl⟩, ⟨key, _, _, ⟨fitsSigned_int32 key, rfl⟩,
          ⟨targets, ⟨?_, rfl⟩, rfl⟩, rfl⟩, ?_⟩
        · have := fits.1
          omega
        · rw [Payload.table, List.append_nil, List.append_assoc]
          rfl
      | _ => cases is_kind
  | sparseSwitch =>
    refine Parses.congr (.bind (.number 2) fun size => .bind (.take _) fun keys =>
      (Parses.take _).bind_pure _) fun p bs => ?_
    constructor
    · rintro ⟨size, _, _, ⟨small, rfl⟩,
        ⟨keys, _, _, ⟨length, rfl⟩, ⟨targets, ⟨same, rfl⟩, rfl⟩, rfl⟩, rfl⟩
      obtain rfl : keys.size / 4 = size := by omega
      refine ⟨⟨rfl, by omega, small, by omega⟩, [], rfl, ?_⟩
      rw [Payload.table, List.append_nil, List.append_assoc]
    · rintro ⟨⟨is_kind, fits⟩, pad, filled, rfl⟩
      cases p with
      | sparseSwitch keys targets =>
        obtain ⟨whole, small, same⟩ := fits
        obtain rfl := List.eq_nil_of_length_eq_zero filled
        refine ⟨keys.size / 4, _, _, ⟨small, rfl⟩, ⟨keys, _, _, ⟨by omega, rfl⟩,
          ⟨targets, ⟨by omega, rfl⟩, rfl⟩, rfl⟩, ?_⟩
        rw [Payload.table, List.append_nil, List.append_assoc]
      | _ => cases is_kind
  | array =>
    refine Parses.congr (Parses.u16.bind fun width => Parses.u32.bind fun count =>
      .bind (.take _) fun data => (Parses.skip _).bind_pure _) fun p bs => ?_
    constructor
    · rintro ⟨width, _, _, rfl, ⟨count, _, _, rfl, ⟨data, _, pad, ⟨length, rfl⟩,
        ⟨-, filled, rfl⟩, rfl⟩, rfl⟩, rfl⟩
      refine ⟨⟨rfl, length⟩, pad, by rw [filled, ← length]; rfl, ?_⟩
      simp only [Payload.table, List.append_assoc]
    · rintro ⟨⟨is_kind, fits⟩, pad, filled, rfl⟩
      cases p with
      | array width count data =>
        refine ⟨width, _, _, rfl, ⟨count, _, _, rfl, ⟨data, _, pad, ⟨fits, rfl⟩,
          ⟨(), ?_, rfl⟩, rfl⟩, rfl⟩, ?_⟩
        · rw [filled, ← fits]
          rfl
        · simp only [Payload.table, List.append_assoc]
      | _ => cases is_kind

/-! ## 2. Bytes that carry nothing -/

/-- The `k`-th byte of an instruction may be anything: the high byte of the first code unit, where
the format has no use for it, and the byte that fills array data up to a whole code unit. -/
def Content.Ignores (x : Content) (k : Nat) : Prop :=
  match x.format, x.operands with
  | .operands format, _ => k = 1 ∧ (x.opcode = 0x0e ∨ format ∈ [.f20t, .f30t, .f32x])
  | .payload _, .payload (.array _ _ data) => k = 8 + data.size ∧ data.size % 2 = 1
  | .payload _, _ => False

/-- The bytes agree with the encoding of an instruction wherever they carry something. -/
def Written (x : Content) (bs : List UInt8) : Prop :=
  Encodable x.opcode x.format x.operands ∧
    ∃ code, encode? x.opcode x.format x.operands = some code ∧ bs.length = code.length ∧
      ∀ k, ¬ x.Ignores k → bs[k]? = code[k]?

-- Bytes that differ from given ones in the second byte only.
theorem agree_second_iff {p : Prop} {bs rest : List UInt8} {a b : UInt8} :
    (bs.length = (a :: b :: rest).length ∧
      ∀ k, ¬ (k = 1 ∧ p) → bs[k]? = (a :: b :: rest)[k]?) ↔
      ∃ c, bs = a :: c :: rest ∧ (p ∨ b = c) := by
  constructor
  · rintro ⟨length, same⟩
    match bs, length with
    | x :: y :: tail, length =>
      have first := same 0 (by omega)
      have behind (k : Nat) : tail[k]? = rest[k]? := same (k + 2) (by omega)
      simp only [List.getElem?_cons_zero, Option.some.injEq] at first
      refine ⟨y, by rw [first, List.ext_getElem? behind], ?_⟩
      by_cases hp : p
      · exact .inl hp
      · have second := same 1 fun h => hp h.2
        simp only [List.getElem?_cons_succ, List.getElem?_cons_zero, Option.some.injEq] at second
        exact .inr second.symm
  · rintro ⟨c, rfl, second⟩
    refine ⟨rfl, fun k carries => ?_⟩
    match k with
    | 0 | _ + 2 => rfl
    | 1 =>
      rw [second.resolve_left fun hp => carries ⟨rfl, hp⟩]

-- Bytes that differ from given ones in the last byte only, if at all.
theorem agree_last_iff {bs front : List UInt8} {n : Nat} (le : n ≤ 1) :
    (bs.length = (front ++ List.replicate n 0).length ∧
      ∀ k, ¬ (k = front.length ∧ n = 1) → bs[k]? = (front ++ List.replicate n 0)[k]?) ↔
      ∃ pad, pad.length = n ∧ bs = front ++ pad := by
  constructor
  · rintro ⟨length, same⟩
    rw [List.length_append, List.length_replicate] at length
    refine ⟨bs.drop front.length, by rw [List.length_drop]; omega, ?_⟩
    have taken : bs.take front.length = front := by
      refine List.ext_getElem (by rw [List.length_take]; omega) fun k lt lt' => ?_
      have here := same k (by omega)
      rw [List.getElem?_append_left lt', List.getElem?_eq_getElem (by omega),
        List.getElem?_eq_getElem lt', Option.some.injEq] at here
      rw [List.getElem_take, here]
    exact (List.take_append_drop front.length bs).symm.trans (by rw [taken])
  · rintro ⟨pad, rfl, rfl⟩
    refine ⟨by simp only [List.length_append, List.length_replicate], fun k carries => ?_⟩
    by_cases lt : k < front.length
    · rw [List.getElem?_append_left lt, List.getElem?_append_left lt]
    · rw [List.getElem?_eq_none, List.getElem?_eq_none]
      · rw [List.length_append, List.length_replicate]
        omega
      · rw [List.length_append]
        omega

/-! ## 3. Instructions -/

/-- Format and operands, as they are read behind the first code unit. -/
def Body (unit : Nat) (body : Format × Operands) (bs : List UInt8) : Prop :=
  match body.1 with
  | .operands format =>
    (OperandFormat.ofOpcode? (UInt8.ofNat unit) = some format ∧
      (UInt8.ofNat unit = 0 → unit = 0)) ∧ Fields (UInt8.ofNat unit) unit format body.2 bs
  | .payload kind =>
    unit = kind.ident ∧ ∃ p, ((p.kind = kind ∧ p.Fits) ∧
      ∃ pad, pad.length = p.padding ∧ bs = p.table ++ pad) ∧ body.2 = .payload p

-- The first code unit of a payload is a no-operation with something in its high byte.
theorem ofNat_ident (kind : PayloadKind) : UInt8.ofNat kind.ident = 0 ∧ kind.ident ≠ 0 := by
  cases kind <;> decide

theorem parses_readBody {unit : Nat} (lt : unit < 0x10000) (offset : Nat) :
    Parses (readBody offset unit) (Body unit) := by
  cases found : OperandFormat.ofOpcode? (UInt8.ofNat unit) with
  | none =>
    simp only [readBody, found]
    refine (Parses.throw _).congr fun body bs => iff_of_false id ?_
    obtain ⟨format, operands⟩ := body
    cases format with
    | operands format =>
      rintro ⟨⟨used, -⟩, -⟩
      rw [found] at used
      cases used
    | payload kind =>
      rintro ⟨rfl, -⟩
      rw [(ofNat_ident kind).1] at found
      cases found
  | some used =>
    simp only [readBody, found]
    by_cases table : UInt8.ofNat unit = 0 ∧ unit ≠ 0
    · rw [if_pos table]
      cases known : PayloadKind.ofIdent? unit with
      | none =>
        refine (Parses.throw _).congr fun body bs => iff_of_false id ?_
        obtain ⟨format, operands⟩ := body
        cases format with
        | operands format => exact fun h => table.2 (h.1.2 table.1)
        | payload kind =>
          rintro ⟨rfl, -⟩
          rw [PayloadKind.ofIdent?_ident] at known
          cases known
      | some kind =>
        obtain rfl := ident_of_ofIdent? known
        refine ((parses_readPayload kind).bind_pure _).congr fun body bs => ?_
        obtain ⟨format, operands⟩ := body
        constructor
        · rintro ⟨p, payload, ⟨⟩⟩
          exact ⟨rfl, p, payload, rfl⟩
        · intro body
          cases format with
          | operands format => exact absurd (body.1.2 table.1) table.2
          | payload other =>
            obtain ⟨same, p, payload, rfl⟩ := body
            rw [same, PayloadKind.ofIdent?_ident] at known
            cases known
            exact ⟨p, payload, rfl⟩
    · rw [if_neg table]
      refine ((parses_readOperands lt offset).bind_pure _).congr fun body bs => ?_
      obtain ⟨format, operands⟩ := body
      constructor
      · rintro ⟨v, fields, ⟨⟩⟩
        exact ⟨⟨found, fun zero => Decidable.byContradiction fun ne => table ⟨zero, ne⟩⟩, fields⟩
      · intro body
        cases format with
        | operands format =>
          obtain ⟨⟨same, -⟩, fields⟩ := body
          rw [found] at same
          cases same
          exact ⟨operands, fields, rfl⟩
        | payload kind =>
          obtain ⟨rfl, -⟩ := body
          exact absurd (ofNat_ident kind) table

-- The opcodes without operands are those of a no-operation and of a return.
theorem eq_of_f10x {opcode : UInt8} (used : OperandFormat.ofOpcode? opcode = some .f10x) :
    opcode = 0 ∨ opcode = 0x0e := by
  have all : ∀ n : Fin 256, OperandFormat.ofOpcode? (UInt8.ofNat n) = some .f10x →
      UInt8.ofNat n = 0 ∨ UInt8.ofNat n = 0x0e := by
    decide +kernel
  have this := all ⟨opcode.toNat, opcode.toNat_lt⟩
  rw [UInt8.ofNat_toNat] at this
  exact this used

theorem format_unique {opcode : UInt8} {f g : OperandFormat}
    (used : OperandFormat.ofOpcode? opcode = some f)
    (known : OperandFormat.ofOpcode? opcode = some g) : f = g := by
  rw [used] at known
  exact Option.some.inj known

-- The high byte of the first code unit is free, or it is the one that the encoding puts there.
theorem highByte_iff {opcode c : UInt8} {format : OperandFormat} {operands : Operands} {high : Nat}
    {rest : List UInt8} (used : OperandFormat.ofOpcode? opcode = some format)
    (fields : operands.fields? opcode format = some (high, rest)) :
    ((opcode = 0x0e ∨ format ∈ [.f20t, .f30t, .f32x]) ∨ UInt8.ofNat high = c) ↔
      (opcode = 0 → c = 0) ∧
        (format ∈ [.f10x, .f20t, .f30t, .f32x] ∨ UInt8.ofNat high = c) := by
  by_cases plain : format = .f10x
  · subst plain
    have zero : high = 0 := by
      cases operands with
      | none => cases fields; rfl
      | _ => cases fields
    subst zero
    rcases eq_of_f10x used with rfl | rfl
    · simp [eq_comm]
    · simp
  · have operation : opcode ≠ 0 := by
      rintro rfl
      exact plain (format_unique used rfl)
    have return' : opcode ≠ 0x0e := by
      rintro rfl
      exact plain (format_unique used rfl)
    simp [plain, operation, return']

-- A code unit is its two bytes.
theorem ofNumber_two (a b : UInt8) :
    Bytes.ofNumber 2 (a.toNat + 0x100 * b.toNat) = [a, b] ∧
      UInt8.ofNat (a.toNat + 0x100 * b.toNat) = a ∧
      UInt8.ofNat ((a.toNat + 0x100 * b.toNat) / 0x100) = b := by
  have bytes := Bytes.ofNumber_value [a, b]
  rw [Bytes.value, Bytes.value, Bytes.value, Nat.mul_zero, Nat.add_zero] at bytes
  exact ⟨bytes, (List.cons.inj bytes).1, (List.cons.inj (List.cons.inj bytes).2).1⟩

-- An instruction with operands is read from its code units up to those bits that carry nothing.
theorem written_operands_iff {opcode : UInt8} {format : OperandFormat} {operands : Operands}
    {bs : List UInt8} : Written ⟨opcode, .operands format, operands⟩ bs ↔
      ∃ unit rest, unit < 0x10000 ∧ bs = Bytes.ofNumber 2 unit ++ rest ∧
        opcode = UInt8.ofNat unit ∧ Body unit (.operands format, operands) rest := by
  constructor
  · rintro ⟨⟨used, fits⟩, code, encoded, agree⟩
    simp only [encode?, bind, Option.bind_eq_some_iff] at encoded
    obtain ⟨⟨high, rest⟩, fields, ⟨⟩⟩ := encoded
    obtain ⟨c, rfl, free⟩ := agree_second_iff.mp agree
    obtain ⟨bytes, low, second⟩ := ofNumber_two opcode c
    obtain ⟨zero, same⟩ := (highByte_iff used fields).mp free
    have small := opcode.toNat_lt
    have small' := c.toNat_lt
    refine ⟨_, rest, by omega, by rw [bytes]; rfl, low.symm, ?_⟩
    unfold Body
    rw [low]
    refine ⟨⟨used, fun h => ?_⟩, fits, high, fields, by rwa [second]⟩
    rw [h, zero h]
    rfl
  · rintro ⟨unit, rest, lt, rfl, rfl, ⟨used, zero⟩, fits, high, fields, same⟩
    refine ⟨⟨used, fits⟩, UInt8.ofNat unit :: UInt8.ofNat high :: rest, ?_, ?_⟩
    · simp only [encode?, fields]
      rfl
    · refine agree_second_iff.mpr ⟨UInt8.ofNat (unit / 0x100), rfl, (highByte_iff used fields).mpr
        ⟨fun h => ?_, same⟩⟩
      rw [zero h]
      rfl

theorem ignores_payload_iff {opcode : UInt8} {kind : PayloadKind} {p : Payload} {k : Nat} :
    Content.Ignores ⟨opcode, .payload kind, .payload p⟩ k ↔
      k = (Bytes.ofNumber 2 p.kind.ident ++ p.table).length ∧ p.padding = 1 := by
  cases p with
  | packedSwitch | sparseSwitch => exact iff_of_false id fun h => Nat.zero_ne_one h.2
  | array width count data =>
    simp only [Content.Ignores, Payload.table, Payload.padding, List.length_append,
      Bytes.length_ofNumber, Array.length_toList, ByteArray.size_data]
    omega

-- A payload is read from its encoding up to the byte that fills it up.
theorem written_payload_iff {opcode : UInt8} {kind : PayloadKind} {operands : Operands}
    {bs : List UInt8} : Written ⟨opcode, .payload kind, operands⟩ bs ↔
      ∃ unit rest, unit < 0x10000 ∧ bs = Bytes.ofNumber 2 unit ++ rest ∧
        opcode = UInt8.ofNat unit ∧ Body unit (.payload kind, operands) rest := by
  have last {p : Payload} : p.padding ≤ 1 := by
    cases p <;> simp only [Payload.padding] <;> omega
  constructor
  · rintro ⟨encodable, code, encoded, agree⟩
    cases operands with
    | payload p =>
      obtain ⟨rfl, rfl, fits⟩ := encodable
      cases encoded
      simp only [ignores_payload_iff] at agree
      rw [Payload.encode_eq, agree_last_iff last] at agree
      obtain ⟨pad, filled, rfl⟩ := agree
      have small : p.kind.ident < 0x10000 := by cases p.kind <;> decide
      exact ⟨_, _, small, List.append_assoc .., (ofNat_ident p.kind).1.symm, rfl, p,
        ⟨⟨rfl, fits⟩, pad, filled, rfl⟩, rfl⟩
    | _ => exact encodable.elim
  · rintro ⟨unit, rest, lt, rfl, rfl, rfl, p, ⟨⟨rfl, fits⟩, pad, filled, rfl⟩, rfl⟩
    refine ⟨⟨(ofNat_ident p.kind).1, rfl, fits⟩, p.encode, rfl, ?_⟩
    simp only [ignores_payload_iff]
    rw [Payload.encode_eq, agree_last_iff last]
    exact ⟨pad, filled, (List.append_assoc ..).symm⟩

theorem readContent_eq (offset : Nat) : readContent offset = (do
    let unit ← number 2
    let body ← readBody offset unit
    return ⟨UInt8.ofNat unit, body.1, body.2⟩) := rfl

theorem parses_readContent (offset : Nat) : Parses (readContent offset) Written := by
  rw [readContent_eq]
  refine Parses.congr (.bind_of (.number 2) fun unit xs read =>
    (parses_readBody read.1 offset).bind_pure _) fun ⟨opcode, format, operands⟩ bs => ?_
  have written_iff : Written ⟨opcode, format, operands⟩ bs ↔
      ∃ unit rest, unit < 0x10000 ∧ bs = Bytes.ofNumber 2 unit ++ rest ∧
        opcode = UInt8.ofNat unit ∧ Body unit (format, operands) rest := by
    cases format with
    | operands format => exact written_operands_iff
    | payload kind => exact written_payload_iff
  rw [written_iff]
  constructor
  · rintro ⟨unit, _, rest, ⟨lt, rfl⟩, ⟨⟨format, operands⟩, body, ⟨⟩⟩, rfl⟩
    exact ⟨unit, rest, lt, rfl, rfl, body⟩
  · rintro ⟨unit, rest, lt, rfl, rfl, body⟩
    exact ⟨unit, _, rest, ⟨lt, rfl⟩, ⟨_, body, rfl⟩, rfl⟩

/-! ## 4. Round trips -/

/-- An instruction is spelled by its encoding, and by the bytes that differ from it only where they
carry nothing. -/
theorem spells_iff_written {bs : List UInt8} {x : Content} : Spells bs x ↔ Written x bs :=
  ⟨fun h => (parses_readContent 0).reads_iff.mp (h 0),
    fun h offset => (parses_readContent offset).reads_iff.mpr h⟩

-- Operands that fit a format can be written in it.
theorem exists_fields {opcode : UInt8} {format : OperandFormat} {operands : Operands}
    (fits : operands.Fits opcode format) :
    ∃ fields, operands.fields? opcode format = some fields := by
  unfold Operands.Fits at fits
  split at fits
  all_goals first | exact fits.elim | exact ⟨_, rfl⟩

theorem exists_code {opcode : UInt8} {format : Format} {operands : Operands}
    (h : Encodable opcode format operands) :
    ∃ code, encode? opcode format operands = some code := by
  cases format with
  | operands format =>
    obtain ⟨⟨high, rest⟩, fields⟩ := exists_fields h.2
    exact ⟨opcode :: UInt8.ofNat high :: rest, by simp only [encode?, fields]; rfl⟩
  | payload kind =>
    cases operands with
    | payload p => exact ⟨p.encode, rfl⟩
    | _ => exact h.elim

/-- An instruction is read back out of its encoding, whatever stands around it.  What was read is
encoded as the bytes that it was read from, except for bytes that carry nothing. -/
theorem codec_roundTrip :
    (∀ opcode format operands, Encodable opcode format operands →
      ∃ code, encode? opcode format operands = some code ∧
        ∀ (pre post : ByteArray) (address : UInt32),
          decode address ⟨pre ++ code.toByteArray ++ post, pre.size⟩ =
            .ok { offset := pre.size, address, opcode, format, operands, size := code.length / 2 }
              ⟨pre ++ code.toByteArray ++ post, pre.size + code.length⟩) ∧
    ∀ address c c' i, decode address c = .ok i c' →
      Encodable i.opcode i.format i.operands ∧
      ∃ code, encode? i.opcode i.format i.operands = some code ∧
        c'.data = c.data ∧ c'.pos = c.pos + code.length ∧ c'.pos ≤ c.data.size ∧
        ∀ k < code.length, ¬ i.content.Ignores k → c.data[c.pos + k]? = code[k]? := by
  constructor
  · intro opcode format operands encodable
    obtain ⟨code, encoded⟩ := exists_code encodable
    have spells : Spells code ⟨opcode, format, operands⟩ :=
      spells_iff_written.mpr ⟨encodable, code, encoded, rfl, fun _ _ => rfl⟩
    exact ⟨code, encoded, fun pre post address =>
      decode_of_spells spells (Cursor.sees_behind pre post code) address⟩
  · intro address c c' i ok
    obtain ⟨bs, x, spells, sees, rfl, rfl⟩ := spells_of_decode ok
    obtain ⟨encodable, code, encoded, length, same⟩ := spells_iff_written.mp spells
    refine ⟨encodable, code, encoded, rfl, by rw [← length]; rfl, sees.add_length_le, ?_⟩
    intro k lt carries
    rw [← same k carries]
    exact sees.getElem?_eq (by omega)

-- The high half of a literal of 32 bits and of one of 64 bits; the registers of a call; and array
-- data of three bytes, filled up with a byte that its encoding has a zero for.
theorem codec_roundTrip_of_highHalves_call_and_array :
    (let half : Operands := .literal 7 (-0x20000)
      let data : ByteArray := ⟨#[0xff, 0x15, 0x07, 0xfe, 0xff, 0xff]⟩
      Encodable 0x15 (.operands .f21h) half ∧
        decode 7 ⟨data, 1⟩ = .ok ⟨1, 7, 0x15, .operands .f21h, 2, half⟩ ⟨data, 5⟩) ∧
    (let half : Operands := .literal 7 0x7ffe000000000000
      let data : ByteArray := ⟨#[0xff, 0x19, 0x07, 0xfe, 0x7f, 0xff]⟩
      Encodable 0x19 (.operands .f21h) half ∧
        decode 7 ⟨data, 1⟩ = .ok ⟨1, 7, 0x19, .operands .f21h, 2, half⟩ ⟨data, 5⟩) ∧
    (let call : Operands := .invokeList (.ofSlots #v[1, 2, 3, 4, 5] 5) 0x1234
      let data : ByteArray := ⟨#[0xff, 0x6e, 0x55, 0x34, 0x12, 0x21, 0x43, 0xff]⟩
      Encodable 0x6e (.operands .f35c) call ∧
        decode 7 ⟨data, 1⟩ = .ok ⟨1, 7, 0x6e, .operands .f35c, 3, call⟩ ⟨data, 7⟩) ∧
    let data : ByteArray := ⟨#[0x00, 0x03, 1, 0, 3, 0, 0, 0, 0xaa, 0xbb, 0xcc, 0xff]⟩
    ∃ i code, decode 0 (.start data) = .ok i ⟨data, 12⟩ ∧
      encode? i.opcode i.format i.operands = some code ∧ code[11]? = some 0 ∧
      ∀ k < 11, data[k]? = code[k]? := by
  have half : Encodable 0x15 (.operands .f21h) (.literal 7 (-0x20000)) := by decide +kernel
  have wide : Encodable 0x19 (.operands .f21h) (.literal 7 0x7ffe000000000000) := by
    decide +kernel
  have call : Encodable 0x6e (.operands .f35c)
      (.invokeList (.ofSlots #v[1, 2, 3, 4, 5] 5) 0x1234) := by decide +kernel
  refine ⟨⟨half, ?_⟩, ⟨wide, ?_⟩, ⟨call, ?_⟩, ?_⟩
  · obtain ⟨code, encoded, read⟩ := codec_roundTrip.1 _ _ _ half
    cases encoded
    exact read ⟨#[0xff]⟩ ⟨#[0xff]⟩ 7
  · obtain ⟨code, encoded, read⟩ := codec_roundTrip.1 _ _ _ wide
    cases encoded
    exact read ⟨#[0xff]⟩ ⟨#[0xff]⟩ 7
  · obtain ⟨code, encoded, read⟩ := codec_roundTrip.1 _ _ _ call
    cases encoded
    exact read ⟨#[0xff]⟩ ⟨#[0xff]⟩ 7
  · have ok : decode 0 (.start ⟨#[0x00, 0x03, 1, 0, 3, 0, 0, 0, 0xaa, 0xbb, 0xcc, 0xff]⟩) =
        .ok ⟨0, 0, 0, .payload .array, 6, .payload (.array 1 3 ⟨#[0xaa, 0xbb, 0xcc]⟩)⟩
          ⟨⟨#[0x00, 0x03, 1, 0, 3, 0, 0, 0, 0xaa, 0xbb, 0xcc, 0xff]⟩, 12⟩ := rfl
    obtain ⟨-, code, encoded, -, -, -, same⟩ := codec_roundTrip.2 _ _ _ _ ok
    cases encoded
    refine ⟨_, _, ok, rfl, rfl, fun k lt => ?_⟩
    have here := same k (Nat.lt_trans lt (by decide)) fun h => absurd h.1 (Nat.ne_of_lt lt)
    rwa [show (Cursor.start _).pos + k = k from Nat.zero_add k] at here

end Instruction

end DalvikCode
