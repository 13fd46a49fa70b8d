import Mathlib
import DalvikCode.Method.Body
import DalvikCode.Proofs.Reading

/-!
# Where the parts of a method stand

A header is accepted if it lies in the image and two of its fields are small enough.  Everything
else is found from it by sums, which are 64-bit words for every header that is accepted: so no
derived offset fails, and the parts of a method follow one another without meeting.
-/

namespace DalvikCode

/-! ## 1. Fields -/

namespace CodeHeader

/-- The header whose fields are the words that stand at `codeOffset`. -/
def fieldsAt (image : ByteArray) (codeOffset : Nat) : CodeHeader where
  codeOffset
  registers := UInt16.ofNat (Bytes.number image codeOffset 2)
  ins := UInt16.ofNat (Bytes.number image (codeOffset + 2) 2)
  outs := UInt16.ofNat (Bytes.number image (codeOffset + 4) 2)
  tries := UInt16.ofNat (Bytes.number image (codeOffset + 6) 2)
  debugInfoOffset := UInt32.ofNat (Bytes.number image (codeOffset + 8) 4)
  codeSize := UInt32.ofNat (Bytes.number image (codeOffset + 12) 4)

-- The place of the header is looked at first, then its fields in the order in which they stand.
theorem read_eq (image : ByteArray) (codeOffset : Nat) :
    read image codeOffset =
      if codeOffset + byteSize ≤ image.size then
        if Bytes.number image (codeOffset + 8) 4 < 2 ^ 31 then
          if Bytes.number image (codeOffset + 12) 4 < 2 ^ 31 then .ok (fieldsAt image codeOffset)
          else .error (.malformed (.smallFieldOutOfRange (codeOffset + 12)))
        else .error (.malformed (.smallFieldOutOfRange (codeOffset + 8)))
      else .error .outOfBounds := by
  rw [read]
  by_cases fits : codeOffset + byteSize ≤ image.size
  · rw [if_pos fits, if_pos fits]
    rw [byteSize] at fits
    rw [Bytes.u16At_of_le (by omega), Bytes.u16At_of_le (by omega), Bytes.u16At_of_le (by omega),
      Bytes.u16At_of_le (by omega), Bytes.smallAt_of_le (by omega), Bytes.smallAt_of_le (by omega)]
    split
    · split <;> rfl
    · rfl
  · rw [if_neg fits, if_neg fits]
    rfl

/-! ## 2. Derived offsets -/

-- Clearing the two low bits of a word rounds it down to a multiple of four.
theorem toNat_and_not_three (w : UInt64) : (w &&& ~~~3).toNat = w.toNat / 4 * 4 := by
  have shifts : w.toNat / 4 * 4 = (w.toNat >>> 2) <<< 2 := by
    rw [Nat.shiftRight_eq_div_pow, Nat.shiftLeft_eq]
  have mask : (~~~3 : UInt64).toNat = 2 ^ 64 - (2 ^ 2 - 1 + 1) := rfl
  -- bit by bit: both sides lose the two low bits and keep the other bits of the word
  refine Nat.eq_of_testBit_eq fun i => ?_
  rw [UInt64.toNat_and, mask, shifts, Nat.testBit_and, Nat.testBit_two_pow_sub_succ (by decide),
    Nat.testBit_two_pow_sub_one, Nat.testBit_shiftLeft, Nat.testBit_shiftRight]
  by_cases low : i < 2
  · simp [low]
  · have reached : 2 ≤ i := Nat.not_lt.mp low
    have above : 2 + (i - 2) = i := by omega
    rw [above]
    by_cases high : i < 64
    · simp only [high, low, reached, decide_true, decide_false, Bool.not_false, Bool.and_true,
        Bool.true_and]
    · have zero : w.toNat.testBit i = false :=
        Nat.testBit_lt_two_pow (Nat.lt_of_lt_of_le w.toNat_lt
          (Nat.pow_le_pow_right (by decide) (Nat.not_lt.mp high)))
      simp [zero]

theorem aligned_eq_masked {n : Nat} (small : n + 3 < 2 ^ 64) :
    (n + 3) / 4 * 4 = ((UInt64.ofNat n + 3) &&& ~~~3).toNat := by
  rw [toNat_and_not_three, UInt64.toNat_add, UInt64.toNat_ofNat_of_lt' (show n < 2 ^ 64 by omega),
    show (3 : UInt64).toNat = 3 from rfl, Nat.mod_eq_of_lt small]

theorem isLeast_aligned (n : Nat) : IsLeast {m | 4 ∣ m ∧ n ≤ m} ((n + 3) / 4 * 4) := by
  refine ⟨⟨Nat.dvd_mul_left 4 _, by omega⟩, ?_⟩
  rintro m ⟨⟨k, rfl⟩, le⟩
  omega

section
variable {h : CodeHeader} (inside : h.codeOffset + byteSize < 2 ^ 63)
include inside

theorem instructionsStop_eq :
    h.instructionsStop = .ok (h.instructionsStart + 2 * h.codeSize.toNat) := by
  have size_lt := h.codeSize.toNat_lt
  rw [instructionsStop, checkedOffset, instructionsStart, if_pos (by omega)]

theorem triesStart_eq :
    h.triesStart = .ok ((h.instructionsStart + 2 * h.codeSize.toNat + 3) / 4 * 4) := by
  have size_lt := h.codeSize.toNat_lt
  have small : h.instructionsStart + 2 * h.codeSize.toNat + 3 < 2 ^ 64 := by
    rw [instructionsStart]
    omega
  rw [triesStart, instructionsStop_eq inside, ok_bind, checkedOffset, if_pos small]
  rfl

theorem handlersStart_eq : h.handlersStart =
    .ok ((h.instructionsStart + 2 * h.codeSize.toNat + 3) / 4 * 4 +
      tryItemSize * h.tries.toNat) := by
  have size_lt := h.codeSize.toNat_lt
  have tries_lt := h.tries.toNat_lt
  have small : (h.instructionsStart + 2 * h.codeSize.toNat + 3) / 4 * 4 +
      tryItemSize * h.tries.toNat < 2 ^ 64 := by
    rw [instructionsStart, tryItemSize]
    omega
  rw [handlersStart, triesStart_eq inside]
  exact if_pos small

end

end CodeHeader

/-! ## 3. Bodies -/

namespace MethodBody

/-- The body whose header is made of the words at `codeOffset`. -/
def ofFields (image : ByteArray) (codeOffset : Nat) (context : MethodContext) (limits : Limits) :
    MethodBody where
  image
  header := .fieldsAt image codeOffset
  codeStop := codeOffset + CodeHeader.byteSize +
    2 * (CodeHeader.fieldsAt image codeOffset).codeSize.toNat
  context
  limits

-- A body is opened exactly if its header is read: the end of its instructions is always a word.
theorem read_eq {image : ByteArray} (image_lt : image.size < 2 ^ 63) (codeOffset : Nat)
    (context : MethodContext) (limits : Limits) :
    read image codeOffset context limits =
      if codeOffset + CodeHeader.byteSize ≤ image.size then
        if Bytes.number image (codeOffset + 8) 4 < 2 ^ 31 then
          if Bytes.number image (codeOffset + 12) 4 < 2 ^ 31 then
            .ok (ofFields image codeOffset context limits)
          else .error (.malformed (.smallFieldOutOfRange (codeOffset + 12)))
        else .error (.malformed (.smallFieldOutOfRange (codeOffset + 8)))
      else .error .outOfBounds := by
  rw [read, CodeHeader.read_eq]
  by_cases fits : codeOffset + CodeHeader.byteSize ≤ image.size
  · have inside : (CodeHeader.fieldsAt image codeOffset).codeOffset + CodeHeader.byteSize <
        2 ^ 63 := Nat.lt_of_le_of_lt fits image_lt
    rw [if_pos fits, if_pos fits]
    split
    · split
      · rw [ok_bind, CodeHeader.instructionsStop_eq inside]
        rfl
      · rfl
    · rfl
  · rw [if_neg fits, if_neg fits]
    rfl

/-- The parts of a body follow one another: the header, the instructions, at most three bytes that
belong to no part, the table of try blocks, and the list of handler records.  Every offset is the
sum that it stands for. -/
structure LaidOut (b : MethodBody) (triesStart handlersStart : Nat) : Prop where
  start_eq : b.instructions.start = b.header.codeOffset + CodeHeader.byteSize
  stop_eq : b.instructions.stop = b.instructions.start + 2 * b.header.codeSize.toNat
  stop_found : b.header.instructionsStop = .ok b.instructions.stop
  unitCount_eq : b.instructions.unitCount = b.header.codeSize.toNat
  tries_found : b.header.triesStart = .ok triesStart
  tries_least : IsLeast {n | 4 ∣ n ∧ b.instructions.stop ≤ n} triesStart
  tries_masked : triesStart = ((UInt64.ofNat b.instructions.stop + 3) &&& ~~~3).toNat
  padding_le : triesStart ≤ b.instructions.stop + 3
  handlers_found : b.header.handlersStart = .ok handlersStart
  handlers_eq : handlersStart = triesStart + CodeHeader.tryItemSize * b.header.tries.toNat
  addressable : handlersStart < 2 ^ 64
  apart : [Set.Ico b.header.codeOffset b.instructions.start,
    Set.Ico b.instructions.start b.instructions.stop, Set.Ico triesStart handlersStart,
    Set.Ici handlersStart].Pairwise Disjoint
  table_found : ∃ t, b.tryTable = .ok t ∧ t.count = b.header.tries.toNat ∧
    (b.header.tries ≠ 0 → t.triesStart = triesStart ∧ t.handlersStart = handlersStart)

-- Of the fields of its header only the widths count.
theorem exists_laidOut {b : MethodBody} (inside : b.header.codeOffset + CodeHeader.byteSize < 2 ^ 63)
    (stop_eq : b.codeStop = b.header.instructionsStart + 2 * b.header.codeSize.toNat) :
    ∃ triesStart handlersStart, b.LaidOut triesStart handlersStart := by
  have size_lt := b.header.codeSize.toNat_lt
  have tries_lt := b.header.tries.toNat_lt
  have start_eq : b.instructions.start = b.header.codeOffset + CodeHeader.byteSize := rfl
  have stop_eq : b.instructions.stop = b.instructions.start + 2 * b.header.codeSize.toNat := stop_eq
  have stop_found : b.header.instructionsStop = .ok b.instructions.stop := by
    rw [CodeHeader.instructionsStop_eq inside, stop_eq]
    rfl
  have tries_found : b.header.triesStart = .ok ((b.instructions.stop + 3) / 4 * 4) := by
    rw [CodeHeader.triesStart_eq inside, stop_eq]
    rfl
  have handlers_found : b.header.handlersStart = .ok ((b.instructions.stop + 3) / 4 * 4 +
      CodeHeader.tryItemSize * b.header.tries.toNat) := by
    rw [CodeHeader.handlersStart_eq inside, stop_eq]
    rfl
  have table_found : ∃ t, b.tryTable = .ok t ∧ t.count = b.header.tries.toNat ∧
      (b.header.tries ≠ 0 → t.triesStart = (b.instructions.stop + 3) / 4 * 4 ∧
        t.handlersStart = (b.instructions.stop + 3) / 4 * 4 +
          CodeHeader.tryItemSize * b.header.tries.toNat) := by
    rw [tryTable]
    by_cases none : b.header.tries = 0
    · rw [if_pos none, none]
      exact ⟨_, rfl, rfl, fun some => absurd rfl some⟩
    · rw [if_neg none, tries_found, handlers_found]
      exact ⟨_, rfl, rfl, fun _ => ⟨rfl, rfl⟩⟩
  have apart : [Set.Ico b.header.codeOffset b.instructions.start,
      Set.Ico b.instructions.start b.instructions.stop,
      Set.Ico ((b.instructions.stop + 3) / 4 * 4) ((b.instructions.stop + 3) / 4 * 4 +
        CodeHeader.tryItemSize * b.header.tries.toNat),
      Set.Ici ((b.instructions.stop + 3) / 4 * 4 +
        CodeHeader.tryItemSize * b.header.tries.toNat)].Pairwise Disjoint := by
    simp only [List.pairwise_cons, List.forall_mem_cons, List.not_mem_nil, false_imp_iff,
      implies_true, List.Pairwise.nil, and_true, Set.disjoint_left, Set.mem_Ico, Set.mem_Ici]
    refine ⟨⟨?_, ?_, ?_⟩, ⟨?_, ?_⟩, ?_⟩ <;> intro k <;> omega
  have unitCount_eq : b.instructions.unitCount = b.header.codeSize.toNat := by
    rw [InstructionStream.unitCount]
    omega
  refine ⟨(b.instructions.stop + 3) / 4 * 4, _, {
    start_eq, stop_eq, stop_found, unitCount_eq, tries_found, handlers_found, table_found, apart
    tries_least := CodeHeader.isLeast_aligned _
    tries_masked := CodeHeader.aligned_eq_masked ?_
    padding_le := Nat.div_mul_le_self _ 4
    handlers_eq := rfl
    addressable := ?_ }⟩
  · omega
  · rw [CodeHeader.tryItemSize]
    omega

/-- A body opens exactly if its header lies in the image and two fields of it are below `2 ^ 31`;
a header that leaves the image is out of bounds, whatever its fields.  The parts of a body that has
been opened follow one another, and no offset of them fails to be a word. -/
theorem read_outcomes_and_layout (image : ByteArray) (image_lt : image.size < 2 ^ 63)
    (codeOffset : Nat) (context : MethodContext) (limits : Limits) :
    let opened := read image codeOffset context limits
    let debugInfoOffset := Bytes.number image (codeOffset + 8) 4
    let codeSize := Bytes.number image (codeOffset + 12) 4
    (opened = .error .outOfBounds ↔ image.size < codeOffset + 16) ∧
    ((∃ what, opened = .error (.malformed what)) ↔
      codeOffset + 16 ≤ image.size ∧ (2 ^ 31 ≤ debugInfoOffset ∨ 2 ^ 31 ≤ codeSize)) ∧
    ((∃ b, opened = .ok b) ↔
      codeOffset + 16 ≤ image.size ∧ debugInfoOffset < 2 ^ 31 ∧ codeSize < 2 ^ 31) ∧
    ∀ b, opened = .ok b → b.header = .fieldsAt image codeOffset ∧
      ∃ triesStart handlersStart, b.LaidOut triesStart handlersStart := by
  intro opened debugInfoOffset codeSize
  have opened_eq : opened = _ := read_eq image_lt codeOffset context limits
  rw [CodeHeader.byteSize] at opened_eq
  -- one case for each answer; in each, every statement is settled by what has been found
  split at opened_eq
  · next fits =>
    split at opened_eq
    · next offset_lt =>
      split at opened_eq
      · next size_lt =>
        rw [opened_eq]
        refine ⟨iff_of_false nofun (Nat.not_lt.mpr fits), iff_of_false nofun ?_,
          iff_of_true ⟨_, rfl⟩ ⟨fits, offset_lt, size_lt⟩, ?_⟩
        · rintro ⟨-, large | large⟩
          · exact Nat.not_lt.mpr large offset_lt
          · exact Nat.not_lt.mpr large size_lt
        · rintro b ⟨⟩
          exact ⟨rfl, exists_laidOut (Nat.lt_of_le_of_lt fits image_lt) rfl⟩
      · next size_large =>
        rw [opened_eq]
        exact ⟨iff_of_false nofun (Nat.not_lt.mpr fits),
          iff_of_true ⟨_, rfl⟩ ⟨fits, .inr (Nat.not_lt.mp size_large)⟩,
          iff_of_false nofun fun h => size_large h.2.2, nofun⟩
    · next offset_large =>
      rw [opened_eq]
      exact ⟨iff_of_false nofun (Nat.not_lt.mpr fits),
        iff_of_true ⟨_, rfl⟩ ⟨fits, .inl (Nat.not_lt.mp offset_large)⟩,
        iff_of_false nofun fun h => offset_large h.2.1, nofun⟩
  · next outside =>
    rw [opened_eq]
    exact ⟨iff_of_true rfl (Nat.not_le.mp outside), iff_of_false nofun fun h => outside h.1,
      iff_of_false nofun fun h => outside h.1, nofun⟩

/-- A header behind one byte, with one code unit and one try block; neither of them is there. -/
def headerOnly : ByteArray :=
  ⟨#[0xff, 0x01, 0x00, 0x00, 0x00, 0x00, 0x00, 0x01, 0x00, 0x00, 0x00, 0x00, 0x00, 0x01, 0x00, 0x00,
    0x00]⟩

theorem read_outcomes_and_layout_of_headerOnly : headerOnly.size < 2 ^ 63 ∧
    (∃ b, read headerOnly 1 .unknown .standard = .ok b ∧ b.LaidOut 20 28) ∧
    read headerOnly 2 .unknown .standard = .error .outOfBounds := by
  have small : headerOnly.size < 2 ^ 63 := by decide
  obtain ⟨-, -, -, layout⟩ := read_outcomes_and_layout headerOnly small 1 .unknown .standard
  obtain ⟨outside, -⟩ := read_outcomes_and_layout headerOnly small 2 .unknown .standard
  refine ⟨small, ⟨_, rfl, ?_⟩, outside.mpr (by decide)⟩
  -- where the table and the records begin can be computed from the header
  obtain ⟨-, triesStart, handlersStart, laidOut⟩ := layout _ rfl
  cases laidOut.tries_found
  cases laidOut.handlers_found
  exact laidOut

end MethodBody

end DalvikCode
