import DalvikCode.Instruction.Encoding
import DalvikCode.Proofs.Grammar
import DalvikCode.Proofs.Instruction.Decoding

/-!
# The fields of operands

Each format reads its operands from the high byte of the first code unit and from the bytes behind
that unit.  `Fields` says which bytes these are for given operands, and the reader of every format
accepts them and no others.  Four formats leave the high byte unused and accept anything there.
-/

namespace DalvikCode

/-! ## 1. Two's-complement fields -/

section
variable {bits : Nat} {z : Int}

theorem two_pow_eq_double (pos : 0 < bits) : 2 ^ bits = 2 * 2 ^ (bits - 1) := by
  rw [← Nat.pow_succ', Nat.succ_eq_add_one, Nat.sub_add_cancel pos]

theorem twosComplement_signedField (pos : 0 < bits) (fits : FitsSigned bits z) :
    twosComplement bits (signedField bits z) = z := by
  have double := two_pow_eq_double pos
  obtain ⟨low, high⟩ := fits
  unfold twosComplement signedField
  generalize 2 ^ (bits - 1) = half at *
  generalize 2 ^ bits = whole at *
  by_cases negative : z < 0
  · have field : z % (whole : Int) = z + whole := by
      rw [← Int.add_emod_right, Int.emod_eq_of_lt (by omega) (by omega)]
    rw [field]
    split <;> omega
  · have field : z % (whole : Int) = z := Int.emod_eq_of_lt (by omega) (by omega)
    rw [field]
    split <;> omega

theorem signedField_twosComplement {n : Nat} (lt : n < 2 ^ bits) :
    signedField bits (twosComplement bits n) = n := by
  unfold twosComplement signedField
  generalize 2 ^ bits = whole at *
  split
  · rw [Int.emod_eq_of_lt (by omega) (by omega)]
    omega
  · rw [Int.sub_emod_right, Int.emod_eq_of_lt (by omega) (by omega)]
    omega

theorem fitsSigned_twosComplement {n : Nat} (pos : 0 < bits) (lt : n < 2 ^ bits) :
    FitsSigned bits (twosComplement bits n) :=
  ⟨le_twosComplement pos, twosComplement_lt lt⟩

theorem FitsSigned.mono {wide : Nat} (fits : FitsSigned bits z) (le : bits ≤ wide) :
    FitsSigned wide z := by
  have grows : 2 ^ (bits - 1) ≤ 2 ^ (wide - 1) := Nat.pow_le_pow_right (by decide) (by omega)
  obtain ⟨low, high⟩ := fits
  constructor <;> omega

theorem signedField_lt : signedField bits z < 2 ^ bits := by
  have pos := Nat.two_pow_pos bits
  have := Int.emod_lt_of_pos z (b := (2 ^ bits : Nat)) (by omega)
  have := Int.emod_nonneg z (b := (2 ^ bits : Nat)) (by omega)
  unfold signedField
  omega

end

theorem FitsSigned.toInt_int32 {z : Int} (fits : FitsSigned 32 z) : (Int32.ofInt z).toInt = z :=
  Int32.toInt_ofInt_of_le fits.1 fits.2

theorem FitsSigned.toInt_int64 {z : Int} (fits : FitsSigned 64 z) : (Int64.ofInt z).toInt = z :=
  Int64.toInt_ofInt_of_le fits.1 fits.2

theorem fitsSigned_int32 (x : Int32) : FitsSigned 32 x.toInt := ⟨x.le_toInt, x.toInt_lt⟩

theorem fitsSigned_int64 (x : Int64) : FitsSigned 64 x.toInt := ⟨x.le_toInt, x.toInt_lt⟩

theorem ofSigned_eq (width : Nat) (z : Int) :
    Bytes.ofSigned width z = Bytes.ofNumber width (signedField (8 * width) z) := by
  rw [Bytes.ofSigned, signedField, show 256 = 2 ^ 8 from rfl, ← Nat.pow_mul]

namespace Parses

variable {β : Type} {s : Scalar}

theorem signed (signed : s.isSigned) : Parses (Reader.scalar s) fun z bs =>
    FitsSigned (8 * s.width) z ∧ bs = Bytes.ofSigned s.width z := by
  have pos : 0 < 8 * s.width := by cases s <;> decide
  have whole : 256 ^ s.width = 2 ^ (8 * s.width) := by rw [Nat.pow_mul]
  refine ((number s.width).map s.value).congr fun z bs => ?_
  simp only [Scalar.value, signed, whole, if_true, ofSigned_eq]
  constructor
  · rintro ⟨n, ⟨lt, rfl⟩, rfl⟩
    exact ⟨fitsSigned_twosComplement pos lt, by rw [signedField_twosComplement lt]⟩
  · rintro ⟨fits, rfl⟩
    exact ⟨_, ⟨signedField_lt, rfl⟩, (twosComplement_signedField pos fits).symm⟩

-- The integer types of operands are at least as wide as the fields that they are read from.
theorem int32 (signed : s.isSigned) (le : 8 * s.width ≤ 32) :
    Parses (Int32.ofInt <$> Reader.scalar s) fun v bs =>
      FitsSigned (8 * s.width) v.toInt ∧ bs = Bytes.ofSigned s.width v.toInt :=
  ((Parses.signed signed).map _).congr fun v bs => by
    constructor
    · rintro ⟨z, ⟨fits, rfl⟩, rfl⟩
      rw [(fits.mono le).toInt_int32]
      exact ⟨fits, rfl⟩
    · rintro ⟨fits, rfl⟩
      exact ⟨v.toInt, ⟨fits, rfl⟩, (Int32.ofInt_toInt v).symm⟩

theorem int64 (signed : s.isSigned) :
    Parses (Int64.ofInt <$> Reader.scalar s) fun v bs =>
      FitsSigned (8 * s.width) v.toInt ∧ bs = Bytes.ofSigned s.width v.toInt :=
  ((Parses.signed signed).map _).congr fun v bs => by
    have le : 8 * s.width ≤ 64 := by cases s <;> decide
    constructor
    · rintro ⟨z, ⟨fits, rfl⟩, rfl⟩
      rw [(fits.mono le).toInt_int64]
      exact ⟨fits, rfl⟩
    · rintro ⟨fits, rfl⟩
      exact ⟨v.toInt, ⟨fits, rfl⟩, (Int64.ofInt_toInt v).symm⟩

theorem byte : Parses (UInt16.ofNat <$> Reader.byte) fun v bs =>
    v < 0x100 ∧ bs = Bytes.ofNumber 1 v.toNat :=
  ((number 1).map UInt16.ofNat).congr fun v bs => by
    constructor
    · rintro ⟨n, ⟨lt, rfl⟩, rfl⟩
      have same : (UInt16.ofNat n).toNat = n :=
        UInt16.toNat_ofNat_of_lt' (Nat.lt_trans lt (by decide))
      exact ⟨by rwa [UInt16.lt_iff_toNat_lt, same], by rw [same]⟩
    · rintro ⟨lt, rfl⟩
      exact ⟨v.toNat, ⟨lt, rfl⟩, UInt16.ofNat_toNat.symm⟩

theorem index16 : Parses (UInt32.ofNat <$> Reader.number 2) fun v bs =>
    v < 0x10000 ∧ bs = Bytes.ofNumber 2 v.toNat :=
  ((number 2).map UInt32.ofNat).congr fun v bs => by
    constructor
    · rintro ⟨n, ⟨lt, rfl⟩, rfl⟩
      have same : (UInt32.ofNat n).toNat = n :=
        UInt32.toNat_ofNat_of_lt' (Nat.lt_trans lt (by decide))
      exact ⟨by rwa [UInt32.lt_iff_toNat_lt, same], by rw [same]⟩
    · rintro ⟨lt, rfl⟩
      exact ⟨v.toNat, ⟨lt, rfl⟩, UInt32.ofNat_toNat.symm⟩

end Parses

namespace Instruction

open Reader

/-! ## 2. The first code unit -/

section
variable {unit : Nat} {a b : UInt16}

theorem toNat_highByte (lt : unit < 0x10000) : (highByte unit).toNat = unit / 0x100 :=
  UInt16.toNat_ofNat_of_lt' (Nat.lt_of_le_of_lt (Nat.div_le_self ..) lt)

theorem toNat_lowNibble : (lowNibble unit).toNat = unit / 0x100 % 0x10 :=
  UInt16.toNat_ofNat_of_lt' (Nat.lt_trans (Nat.mod_lt _ (by decide)) (by decide))

theorem toNat_highNibble (lt : unit < 0x10000) : (highNibble unit).toNat = unit / 0x1000 :=
  UInt16.toNat_ofNat_of_lt' (Nat.lt_of_le_of_lt (Nat.div_le_self ..) lt)

-- A byte holds any number that is small enough.
theorem ofNat_eq_highByte_iff {n : Nat} (small : n < 0x100) (lt : unit < 0x10000) :
    UInt8.ofNat n = UInt8.ofNat (unit / 0x100) ↔ n = unit / 0x100 := by
  rw [← UInt8.toNat_inj, UInt8.toNat_ofNat', UInt8.toNat_ofNat']
  omega

theorem eq_highByte_iff (lt : unit < 0x10000) :
    a = highByte unit ↔ a < 0x100 ∧ UInt8.ofNat a.toNat = UInt8.ofNat (unit / 0x100) := by
  rw [← UInt16.toNat_inj, UInt16.lt_iff_toNat_lt, toNat_highByte lt, ← UInt8.toNat_inj,
    UInt8.toNat_ofNat', UInt8.toNat_ofNat']
  change _ ↔ _ < 0x100 ∧ _
  omega

theorem eq_nibbles_iff (lt : unit < 0x10000) :
    a = lowNibble unit ∧ b = highNibble unit ↔
      a < 0x10 ∧ b < 0x10 ∧
        UInt8.ofNat (nibbles a.toNat b.toNat) = UInt8.ofNat (unit / 0x100) := by
  simp only [← UInt16.toNat_inj, UInt16.lt_iff_toNat_lt, toNat_lowNibble, toNat_highNibble lt,
    ← UInt8.toNat_inj, UInt8.toNat_ofNat', nibbles]
  change _ ↔ _ < 0x10 ∧ _ < 0x10 ∧ _
  omega

theorem eq_branch_iff {offset : Int32} (lt : unit < 0x10000) :
    offset = Int32.ofInt (twosComplement 8 (unit / 0x100)) ↔
      FitsSigned 8 offset.toInt ∧
        UInt8.ofNat (signedField 8 offset.toInt) = UInt8.ofNat (unit / 0x100) := by
  have field_lt : unit / 0x100 < 2 ^ 8 := Nat.div_lt_of_lt_mul lt
  have fits := fitsSigned_twosComplement (by decide) field_lt
  rw [ofNat_eq_highByte_iff signedField_lt lt]
  constructor
  · rintro rfl
    rw [(fits.mono (by decide)).toInt_int32]
    exact ⟨fits, signedField_twosComplement field_lt⟩
  · rintro ⟨fits, field⟩
    rw [← field, twosComplement_signedField (by decide) fits, Int32.ofInt_toInt]

theorem eq_literal_iff {value : Int64} (lt : unit < 0x10000) :
    a = lowNibble unit ∧ value = Int64.ofInt (twosComplement 4 (unit / 0x1000)) ↔
      a < 0x10 ∧ FitsSigned 4 value.toInt ∧
        UInt8.ofNat (nibbles a.toNat (signedField 4 value.toInt)) =
          UInt8.ofNat (unit / 0x100) := by
  have field_lt : unit / 0x1000 < 2 ^ 4 := Nat.div_lt_of_lt_mul lt
  have fits := fitsSigned_twosComplement (by decide) field_lt
  have small : signedField 4 value.toInt < 2 ^ 4 := signedField_lt
  rw [← UInt16.toNat_inj, UInt16.lt_iff_toNat_lt, toNat_lowNibble, nibbles, ← UInt8.toNat_inj,
    UInt8.toNat_ofNat', UInt8.toNat_ofNat']
  change _ ↔ _ < 0x10 ∧ _
  constructor
  · rintro ⟨low, rfl⟩
    rw [(fits.mono (by decide)).toInt_int64, signedField_twosComplement field_lt]
    exact ⟨by omega, fits, by omega⟩
  · rintro ⟨low_lt, fits, field⟩
    have high : unit / 0x1000 = signedField 4 value.toInt := by omega
    rw [high, twosComplement_signedField (by decide) fits, Int64.ofInt_toInt]
    exact ⟨by omega, rfl⟩

end

/-! ## 3. Operands -/

/-- The first code unit and the bytes behind it are fields that hold the operands. -/
def Fields (opcode : UInt8) (unit : Nat) (format : OperandFormat) (operands : Operands)
    (bs : List UInt8) : Prop :=
  operands.Fits opcode format ∧ ∃ high, operands.fields? opcode format = some (high, bs) ∧
    (format ∈ [.f10x, .f20t, .f30t, .f32x] ∨ UInt8.ofNat high = UInt8.ofNat (unit / 0x100))

theorem highUnit_eq (opcode : UInt8) : Operands.highUnit opcode = 2 ^ highHalfShift opcode := by
  unfold Operands.highUnit highHalfShift
  split <;> rfl

-- A high-half literal is a signed 16-bit number with zeros below it.
theorem parses_highHalf (opcode : UInt8) :
    Parses ((fun z => Int64.ofInt (z * 2 ^ highHalfShift opcode)) <$> i16) fun v bs =>
      (v.toInt % Operands.highUnit opcode = 0 ∧
        FitsSigned 16 (v.toInt / Operands.highUnit opcode)) ∧
      bs = Bytes.ofSigned 2 (v.toInt / Operands.highUnit opcode) := by
  rw [← highUnit_eq]
  refine ((Parses.signed rfl).map _).congr fun v bs => ?_
  have unit : Operands.highUnit opcode = 2 ^ 48 ∨ Operands.highUnit opcode = 2 ^ 16 := by
    unfold Operands.highUnit
    split
    · exact .inl rfl
    · exact .inr rfl
  generalize Operands.highUnit opcode = m at unit
  constructor
  · rintro ⟨z, ⟨fits, rfl⟩, rfl⟩
    have same : (Int64.ofInt (z * m)).toInt = z * m := by
      apply FitsSigned.toInt_int64
      obtain ⟨low, high⟩ := fits
      change -32768 ≤ z at low
      change z < 32768 at high
      rcases unit with rfl | rfl
      all_goals constructor <;> omega
    rw [same, Int.mul_emod_left, Int.mul_ediv_cancel _ (by omega)]
    exact ⟨⟨rfl, fits⟩, rfl⟩
  · rintro ⟨⟨exact', fits⟩, rfl⟩
    refine ⟨_, ⟨fits, rfl⟩, ?_⟩
    rw [Int.ediv_mul_cancel (Int.dvd_of_emod_eq_zero exact'), Int64.ofInt_toInt]

theorem exists_slots (slots : Vector UInt8 5) : ∃ a b c d e, slots = #v[a, b, c, d, e] := by
  refine ⟨slots[0], slots[1], slots[2], slots[3], slots[4], Vector.ext fun i lt => ?_⟩
  obtain rfl | rfl | rfl | rfl | rfl : i = 0 ∨ i = 1 ∨ i = 2 ∨ i = 3 ∨ i = 4 := by omega
  all_goals rfl

-- The slots of a register list are the nibbles of a code unit and the low nibble of the high byte.
theorem parses_readRegisterList {unit : Nat} (lt : unit < 0x10000) (offset : Nat) :
    Parses (readRegisterList offset unit) fun l bs =>
      (l.Fits ∧ UInt8.ofNat l.firstField = UInt8.ofNat (unit / 0x100)) ∧ bs = l.slotBytes := by
  unfold readRegisterList
  refine Parses.congr (.ite _ (.bind (.throw _) fun _ => (Parses.number 2).bind_pure _)
    ((Parses.number 2).bind_pure _)) fun l bs => ?_
  obtain ⟨slots, count, le⟩ := l
  obtain ⟨a, b, c, d, e, rfl⟩ := exists_slots slots
  -- both sides are put in terms of the five slots
  simp only [RegisterList.Fits, RegisterList.firstField, RegisterList.slotBytes,
    RegisterList.ofSlots, RegisterList.mk.injEq, Bytes.ofNumber, nibbles, Vector.eq_mk,
    Vector.toList_mk, Vector.getElem_mk, List.getElem_toArray, List.getElem_cons_succ,
    List.getElem_cons_zero, List.mem_cons, List.not_mem_nil, or_false, forall_eq_or_imp, forall_eq,
    Array.mk.injEq, List.cons.injEq, and_true, false_and, exists_const, if_false_left, Nat.not_lt]
  simp only [← UInt8.toNat_inj, UInt8.toNat_ofNat']
  constructor
  · rintro ⟨few, word, ⟨word_lt, rfl⟩, slots_eq, rfl⟩
    refine ⟨by omega, ?_⟩
    simp only [List.cons.injEq, and_true, ← UInt8.toNat_inj, UInt8.toNat_ofNat']
    omega
  · rintro ⟨⟨fits, field⟩, rfl⟩
    refine ⟨by omega, a.toNat + 0x10 * b.toNat + 0x100 * c.toNat + 0x1000 * d.toNat,
      ⟨by omega, ?_⟩, by omega, by omega⟩
    simp only [List.cons.injEq, and_true, ← UInt8.toNat_inj, UInt8.toNat_ofNat']
    omega

section
variable {opcode : UInt8} {unit : Nat} {format : OperandFormat} (lt : unit < 0x10000) (offset : Nat)
include lt

theorem parses_oneUnit (h : format.units = 1) :
    Parses (readOperands offset opcode unit format) (Fields opcode unit format) := by
  have wide {a} := eq_highByte_iff (a := a) lt
  have narrow {a b} := eq_nibbles_iff (a := a) (b := b) lt
  cases format with
  | f10x =>
    refine (Parses.pure _).congr fun operands bs => ?_
    cases operands with
    | none => grind [Fields, Operands.Fits, Operands.fields?]
    | _ => exact iff_of_false (by rintro ⟨⟨⟩, -⟩) fun h => h.1.elim
  | f10t =>
    refine (Parses.pure _).congr fun operands bs => ?_
    cases operands with
    | branch offset => grind [Fields, Operands.Fits, Operands.fields?, eq_branch_iff]
    | _ => exact iff_of_false (by rintro ⟨⟨⟩, -⟩) fun h => h.1.elim
  | f11n =>
    refine (Parses.pure _).congr fun operands bs => ?_
    cases operands with
    | literal a value => grind [Fields, Operands.Fits, Operands.fields?, eq_literal_iff]
    | _ => exact iff_of_false (by rintro ⟨⟨⟩, -⟩) fun h => h.1.elim
  | f11x =>
    refine (Parses.pure _).congr fun operands bs => ?_
    cases operands with
    | register a => grind [Fields, Operands.Fits, Operands.fields?]
    | _ => exact iff_of_false (by rintro ⟨⟨⟩, -⟩) fun h => h.1.elim
  | f12x =>
    refine (Parses.pure _).congr fun operands bs => ?_
    cases operands with
    | registerPair a b => grind [Fields, Operands.Fits, Operands.fields?]
    | _ => exact iff_of_false (by rintro ⟨⟨⟩, -⟩) fun h => h.1.elim
  | _ => exact absurd h (by decide)

theorem parses_twoUnits (h : format.units = 2) :
    Parses (readOperands offset opcode unit format) (Fields opcode unit format) := by
  have wide {a} := eq_highByte_iff (a := a) lt
  have narrow {a b} := eq_nibbles_iff (a := a) (b := b) lt
  cases format with
  | f20t =>
    refine Parses.congr (.bind_map_pure (.int32 rfl (by decide))) fun operands bs => ?_
    cases operands with
    | branch offset =>
      grind [Fields, Operands.Fits, Operands.fields?, Scalar.width]
    | _ => exact iff_of_false (by rintro ⟨_, _, ⟨⟩⟩) fun h => h.1.elim
  | f21c =>
    refine Parses.congr (.bind_map_pure .index16) fun operands bs => ?_
    cases operands with
    | index a idx => grind [Fields, Operands.Fits, Operands.fields?]
    | _ => exact iff_of_false (by rintro ⟨_, _, ⟨⟩⟩) fun h => h.1.elim
  | f21h =>
    refine Parses.congr (.bind_map_pure (parses_highHalf opcode)) fun operands bs => ?_
    cases operands with
    | literal a value =>
      constructor
      · rintro ⟨v, ⟨fits, rfl⟩, ⟨⟩⟩
        exact ⟨⟨(wide.mp rfl).1, fits⟩, _, rfl, .inr (wide.mp rfl).2⟩
      · rintro ⟨⟨lt, fits⟩, high, ⟨⟩, same⟩
        exact ⟨value, ⟨fits, rfl⟩, by rw [wide.mpr ⟨lt, same.resolve_left (by decide)⟩]⟩
    | _ => exact iff_of_false (by rintro ⟨_, _, ⟨⟩⟩) fun h => h.1.elim
  | f21s =>
    refine Parses.congr (.bind_map_pure (.int64 rfl)) fun operands bs => ?_
    cases operands with
    | literal a value =>
      grind [Fields, Operands.Fits, Operands.fields?, Scalar.width]
    | _ => exact iff_of_false (by rintro ⟨_, _, ⟨⟩⟩) fun h => h.1.elim
  | f21t =>
    refine Parses.congr (.bind_map_pure (.int32 rfl (by decide))) fun operands bs => ?_
    cases operands with
    | registerBranch a offset =>
      grind [Fields, Operands.Fits, Operands.fields?, Scalar.width]
    | _ => exact iff_of_false (by rintro ⟨_, _, ⟨⟩⟩) fun h => h.1.elim
  | f22b =>
    refine Parses.congr (.bind_map
      (k := fun b => i8 >>= fun z =>
        pure (Operands.registerPairLiteral (highByte unit) b (Int32.ofInt z)))
      .byte fun b => .bind_map_pure (.int32 rfl (by decide))) fun operands bs => ?_
    cases operands with
    | registerPairLiteral a b value =>
      constructor
      · rintro ⟨_, _, _, ⟨b_lt, rfl⟩, ⟨_, ⟨fits, rfl⟩, ⟨⟩⟩, rfl⟩
        exact ⟨⟨(wide.mp rfl).1, b_lt, fits⟩, _, rfl, .inr (wide.mp rfl).2⟩
      · rintro ⟨⟨a_lt, b_lt, fits⟩, high, ⟨⟩, same⟩
        obtain rfl := wide.mpr ⟨a_lt, same.resolve_left (by decide)⟩
        exact ⟨b, _, _, ⟨b_lt, rfl⟩, ⟨value, ⟨fits, rfl⟩, rfl⟩, rfl⟩
    | _ => exact iff_of_false (by rintro ⟨_, _, _, _, ⟨_, _, ⟨⟩⟩, _⟩) fun h => h.1.elim
  | f22c =>
    refine Parses.congr (.bind_map_pure .index16) fun operands bs => ?_
    cases operands with
    | registerPairIndex a b idx => grind [Fields, Operands.Fits, Operands.fields?]
    | _ => exact iff_of_false (by rintro ⟨_, _, ⟨⟩⟩) fun h => h.1.elim
  | f22s =>
    refine Parses.congr (.bind_map_pure (.int32 rfl (by decide))) fun operands bs => ?_
    cases operands with
    | registerPairLiteral a b value =>
      grind [Fields, Operands.Fits, Operands.fields?, Scalar.width]
    | _ => exact iff_of_false (by rintro ⟨_, _, ⟨⟩⟩) fun h => h.1.elim
  | f22t =>
    refine Parses.congr (.bind_map_pure (.int32 rfl (by decide))) fun operands bs => ?_
    cases operands with
    | registerPairBranch a b offset =>
      grind [Fields, Operands.Fits, Operands.fields?, Scalar.width]
    | _ => exact iff_of_false (by rintro ⟨_, _, ⟨⟩⟩) fun h => h.1.elim
  | f22x =>
    refine Parses.congr (Parses.u16.bind_pure _) fun operands bs => ?_
    cases operands with
    | registerPair a b => grind [Fields, Operands.Fits, Operands.fields?]
    | _ => exact iff_of_false (by rintro ⟨_, _, ⟨⟩⟩) fun h => h.1.elim
  | f23x =>
    refine Parses.congr (.bind_map
      (k := fun b => byte >>= fun c =>
        pure (Operands.registerTriple (highByte unit) b (UInt16.ofNat c)))
      .byte fun b => .bind_map_pure .byte) fun operands bs => ?_
    cases operands with
    | registerTriple a b c =>
      constructor
      · rintro ⟨_, _, _, ⟨b_lt, rfl⟩, ⟨_, ⟨c_lt, rfl⟩, ⟨⟩⟩, rfl⟩
        exact ⟨⟨(wide.mp rfl).1, b_lt, c_lt⟩, _, rfl, .inr (wide.mp rfl).2⟩
      · rintro ⟨⟨a_lt, b_lt, c_lt⟩, high, ⟨⟩, same⟩
        obtain rfl := wide.mpr ⟨a_lt, same.resolve_left (by decide)⟩
        exact ⟨b, _, _, ⟨b_lt, rfl⟩, ⟨c, ⟨c_lt, rfl⟩, rfl⟩, rfl⟩
    | _ => exact iff_of_false (by rintro ⟨_, _, _, _, ⟨_, _, ⟨⟩⟩, _⟩) fun h => h.1.elim
  | _ => exact absurd h (by decide)

theorem parses_moreUnits (h : 2 < format.units) :
    Parses (readOperands offset opcode unit format) (Fields opcode unit format) := by
  have wide {a} := eq_highByte_iff (a := a) lt
  cases format with
  | f30t =>
    refine Parses.congr (.bind_map_pure (.int32 rfl (by decide))) fun operands bs => ?_
    cases operands with
    | branch offset =>
      grind [Fields, Operands.Fits, Operands.fields?, Scalar.width, fitsSigned_int32]
    | _ => exact iff_of_false (by rintro ⟨_, _, ⟨⟩⟩) fun h => h.1.elim
  | f31c =>
    refine Parses.congr (Parses.u32.bind_pure _) fun operands bs => ?_
    cases operands with
    | index a idx => grind [Fields, Operands.Fits, Operands.fields?]
    | _ => exact iff_of_false (by rintro ⟨_, _, ⟨⟩⟩) fun h => h.1.elim
  | f31i | f51l =>
    refine Parses.congr (.bind_map_pure (.int64 rfl)) fun operands bs => ?_
    cases operands with
    | literal a value =>
      grind [Fields, Operands.Fits, Operands.fields?, Scalar.width, fitsSigned_int64]
    | _ => exact iff_of_false (by rintro ⟨_, _, ⟨⟩⟩) fun h => h.1.elim
  | f31t =>
    refine Parses.congr (.bind_map_pure (.int32 rfl (by decide))) fun operands bs => ?_
    cases operands with
    | registerBranch a offset =>
      grind [Fields, Operands.Fits, Operands.fields?, Scalar.width, fitsSigned_int32]
    | _ => exact iff_of_false (by rintro ⟨_, _, ⟨⟩⟩) fun h => h.1.elim
  | f32x =>
    refine Parses.congr (Parses.u16.bind fun a => Parses.u16.bind_pure _) fun operands bs => ?_
    cases operands with
    | registerPair a b => grind [Fields, Operands.Fits, Operands.fields?]
    | _ => exact iff_of_false (by rintro ⟨_, _, _, _, ⟨_, _, ⟨⟩⟩, _⟩) fun h => h.1.elim
  | f35c =>
    refine Parses.congr (.bind_map
      (k := fun idx => readRegisterList offset unit >>= fun l => pure (Operands.invokeList l idx))
      .index16 fun idx => (parses_readRegisterList lt offset).bind_pure _) fun operands bs => ?_
    cases operands with
    | invokeList registers idx =>
      constructor
      · rintro ⟨_, _, _, ⟨idx_lt, rfl⟩, ⟨_, ⟨⟨fits, field⟩, rfl⟩, ⟨⟩⟩, rfl⟩
        exact ⟨⟨fits, idx_lt⟩, _, rfl, .inr field⟩
      · rintro ⟨⟨fits, idx_lt⟩, high, ⟨⟩, same⟩
        have field := same.resolve_left (by decide)
        exact ⟨idx, _, _, ⟨idx_lt, rfl⟩, ⟨registers, ⟨⟨fits, field⟩, rfl⟩, rfl⟩, rfl⟩
    | _ => exact iff_of_false (by rintro ⟨_, _, _, _, ⟨_, _, ⟨⟩⟩, _⟩) fun h => h.1.elim
  | f3rc =>
    refine Parses.congr (.bind_map
      (k := fun idx => u16 >>= fun first => pure (Operands.invokeRange first (highByte unit) idx))
      .index16 fun idx => Parses.u16.bind_pure _) fun operands bs => ?_
    cases operands with
    | invokeRange first count idx =>
      constructor
      · rintro ⟨_, _, _, ⟨idx_lt, rfl⟩, ⟨_, rfl, ⟨⟩⟩, rfl⟩
        exact ⟨⟨(wide.mp rfl).1, idx_lt⟩, _, rfl, .inr (wide.mp rfl).2⟩
      · rintro ⟨⟨count_lt, idx_lt⟩, high, ⟨⟩, same⟩
        obtain rfl := wide.mpr ⟨count_lt, same.resolve_left (by decide)⟩
        exact ⟨idx, _, _, ⟨idx_lt, rfl⟩, ⟨first, rfl, rfl⟩, rfl⟩
    | _ => exact iff_of_false (by rintro ⟨_, _, _, _, ⟨_, _, ⟨⟩⟩, _⟩) fun h => h.1.elim
  | f45cc =>
    refine Parses.congr (.bind_map
      (k := fun idx => readRegisterList offset unit >>= fun l => u16 >>= fun proto =>
        pure (Operands.polymorphicList l idx proto))
      .index16 fun idx => (parses_readRegisterList lt offset).bind fun l => Parses.u16.bind_pure _)
      fun operands bs => ?_
    cases operands with
    | polymorphicList registers idx proto =>
      constructor
      · rintro ⟨_, _, _, ⟨idx_lt, rfl⟩, ⟨_, _, _, ⟨⟨fits, field⟩, rfl⟩, ⟨_, rfl, ⟨⟩⟩, rfl⟩, rfl⟩
        exact ⟨⟨fits, idx_lt⟩, _, by rw [← List.append_assoc]; rfl, .inr field⟩
      · rintro ⟨⟨fits, idx_lt⟩, high, ⟨⟩, same⟩
        have field := same.resolve_left (by decide)
        exact ⟨idx, _, _, ⟨idx_lt, rfl⟩,
          ⟨registers, _, _, ⟨⟨fits, field⟩, rfl⟩, ⟨proto, rfl, rfl⟩, rfl⟩, List.append_assoc ..⟩
    | _ =>
      exact iff_of_false (by rintro ⟨_, _, _, _, ⟨_, _, _, _, ⟨_, _, ⟨⟩⟩, _⟩, _⟩) fun h => h.1.elim
  | f4rcc =>
    refine Parses.congr (.bind_map
      (k := fun idx => u16 >>= fun first => u16 >>= fun proto =>
        pure (Operands.polymorphicRange first (highByte unit) idx proto))
      .index16 fun idx => Parses.u16.bind fun first => Parses.u16.bind_pure _) fun operands bs => ?_
    cases operands with
    | polymorphicRange first count idx proto =>
      constructor
      · rintro ⟨_, _, _, ⟨idx_lt, rfl⟩, ⟨_, _, _, rfl, ⟨_, rfl, ⟨⟩⟩, rfl⟩, rfl⟩
        exact ⟨⟨(wide.mp rfl).1, idx_lt⟩, _, by rw [← List.append_assoc]; rfl, .inr (wide.mp rfl).2⟩
      · rintro ⟨⟨count_lt, idx_lt⟩, high, ⟨⟩, same⟩
        obtain rfl := wide.mpr ⟨count_lt, same.resolve_left (by decide)⟩
        exact ⟨idx, _, _, ⟨idx_lt, rfl⟩, ⟨first, _, _, rfl, ⟨proto, rfl, rfl⟩, rfl⟩,
          List.append_assoc ..⟩
    | _ =>
      exact iff_of_false (by rintro ⟨_, _, _, _, ⟨_, _, _, _, ⟨_, _, ⟨⟩⟩, _⟩, _⟩) fun h => h.1.elim
  | _ => exact absurd h (by decide)

theorem parses_readOperands :
    Parses (readOperands offset opcode unit format) (Fields opcode unit format) := by
  have units : format.units = 1 ∨ format.units = 2 ∨ 2 < format.units := by cases format <;> decide
  rcases units with h | h | h
  · exact parses_oneUnit lt offset h
  · exact parses_twoUnits lt offset h
  · exact parses_moreUnits lt offset h

end

end Instruction

end DalvikCode
