import DalvikCode.Proofs.Grammar
import DalvikCode.Proofs.Method.TryTable

/-!
# Reading one entry of a table of try blocks

An entry is eight bytes: the address where a block starts, the number of its code units, and the
place of its handler record.  No other bytes of the image have a part in it.  The address is judged
as soon as its own bytes have been read, so it is found to be too large even where the rest of the
entry is missing.
-/

namespace DalvikCode

/-! ## 1. Fields of some bytes -/

namespace Bytes

/-- The number in the `width` bytes behind the first `offset` ones. -/
def field (bs : List UInt8) (offset width : Nat) : Nat := value ((bs.drop offset).take width)

theorem field_lt (bs : List UInt8) (offset width : Nat) : field bs offset width < 256 ^ width :=
  Nat.lt_of_lt_of_le (value_lt _) (Nat.pow_le_pow_right (by decide) (List.length_take_le width _))

/-- The bytes of a range, as far as they are in the image. -/
def present (image : ByteArray) (start stop : Nat) : List UInt8 :=
  (image.extract start stop).data.toList

theorem length_present (image : ByteArray) (start stop : Nat) :
    (present image start stop).length = min stop image.size - start := by
  rw [present, Array.length_toList, ByteArray.size_data, ByteArray.size_extract]

-- A number in the image is a field of every range that it is in.
theorem number_eq_field {image : ByteArray} {start stop offset width : Nat}
    (inside : start + offset + width ≤ stop) (fits : start + offset + width ≤ image.size) :
    number image (start + offset) width = field (present image start stop) offset width := by
  obtain ⟨⟨-, more, eq⟩, length⟩ := Cursor.sees_take (c := ⟨image, start + offset⟩) fits
  have split := number_eq_value image (start + offset) _ more eq
  rw [length] at split
  rw [split, field, present, Cursor.toList_extract, List.drop_take, List.take_take,
    Nat.min_eq_left (by omega), Cursor.rest, Cursor.rest, List.drop_drop]

end Bytes

/-! ## 2. Addresses of a block -/

namespace TryBlock

/-- The address is among the code units of the block, which are counted without overflow. -/
def Covers (b : TryBlock) (address : UInt32) : Prop :=
  b.start.toNat ≤ address.toNat ∧ address.toNat < b.start.toNat + b.unitCount.toNat

instance (b : TryBlock) (address : UInt32) : Decidable (b.Covers address) :=
  inferInstanceAs (Decidable (_ ∧ _))

section
variable {b : TryBlock} (start_lt : b.start.toNat < 2 ^ 31)
include start_lt

theorem toNat_stop : b.stop.toNat = b.start.toNat + b.unitCount.toNat := by
  have count_lt := b.unitCount.toNat_lt
  have fits : b.start.toNat + b.unitCount.toNat < 2 ^ 32 := by omega
  rw [stop, UInt32.toNat_add, UInt16.toNat_toUInt32]
  exact Nat.mod_eq_of_lt fits

theorem covers_iff (address : UInt32) : b.covers address ↔ b.Covers address := by
  rw [covers, Bool.and_eq_true, decide_eq_true_iff, decide_eq_true_iff, UInt32.le_iff_toNat_le,
    UInt32.lt_iff_toNat_lt, toNat_stop start_lt, Covers]

end

/-- The block that is written in the eight bytes of an entry. -/
def ofBytes (bs : List UInt8) : TryBlock where
  start := UInt32.ofNat (Bytes.field bs 0 4)
  unitCount := UInt16.ofNat (Bytes.field bs 4 2)
  handlerOffset := UInt16.ofNat (Bytes.field bs 6 2)

variable (bs : List UInt8)

@[simp] theorem toNat_start_ofBytes : (ofBytes bs).start.toNat = Bytes.field bs 0 4 :=
  UInt32.toNat_ofNat_of_lt' (Bytes.field_lt bs 0 4)

@[simp] theorem toNat_unitCount_ofBytes : (ofBytes bs).unitCount.toNat = Bytes.field bs 4 2 :=
  UInt16.toNat_ofNat_of_lt' (Bytes.field_lt bs 4 2)

@[simp] theorem toNat_handlerOffset_ofBytes :
    (ofBytes bs).handlerOffset.toNat = Bytes.field bs 6 2 :=
  UInt16.toNat_ofNat_of_lt' (Bytes.field_lt bs 6 2)

end TryBlock

/-! ## 3. Outcomes -/

namespace TryTable

open Bytes

/-- The bytes of an entry start with an address, and it does not fit 31 bits. -/
def StartsTooFar (bs : List UInt8) : Prop := 4 ≤ bs.length ∧ 2 ^ 31 ≤ field bs 0 4

instance (bs : List UInt8) : Decidable (StartsTooFar bs) := inferInstanceAs (Decidable (_ ∧ _))

theorem not_startsTooFar_iff {bs : List UInt8} (four : 4 ≤ bs.length) :
    ¬ StartsTooFar bs ↔ field bs 0 4 < 2 ^ 31 := by
  rw [StartsTooFar, not_and, Nat.not_le]
  exact ⟨fun h => h four, fun h _ => h⟩

-- The address comes first; what is missing behind it is noticed only if it is small enough.
theorem entryAt_eq {image : ByteArray} (image_lt : image.size < 2 ^ 63) (offset : Nat) :
    entryAt image offset =
      if StartsTooFar (present image offset (offset + 8)) then
        .error (.malformed (.smallFieldOutOfRange offset))
      else if offset + 8 ≤ image.size then
        .ok (.ofBytes (present image offset (offset + 8)))
      else .error .outOfBounds := by
  have length := length_present image offset (offset + 8)
  rw [entryAt, CodeHeader.tryItemSize, checkedOffset]
  have read (k width : Nat) (inside : k + width ≤ 8) (fits : offset + (k + width) ≤ image.size) :
      number image (offset + k) width = field (present image offset (offset + 8)) k width :=
    number_eq_field (by omega) (by omega)
  by_cases address_fits : offset + 4 ≤ image.size
  · have word : offset + 8 < 2 ^ 64 := by omega
    have four : 4 ≤ (present image offset (offset + 8)).length := by omega
    have start_eq : number image offset 4 = field (present image offset (offset + 8)) 0 4 :=
      read 0 4 (by decide) address_fits
    rw [if_pos word, ok_bind, smallAt_of_le address_fits, start_eq]
    by_cases small : field (present image offset (offset + 8)) 0 4 < 2 ^ 31
    · rw [if_pos small, if_neg fun far => Nat.not_le.mpr small far.2]
      by_cases fits : offset + 8 ≤ image.size
      · rw [if_pos fits, u16At_of_le (by omega), u16At_of_le (by omega),
          read 4 2 (by decide) (by omega), read 6 2 (by decide) fits]
        rfl
      · rw [if_neg fits, u16At_of_lt (show image.size < offset + 6 + 2 by omega)]
        by_cases count_fits : offset + 6 ≤ image.size
        · rw [u16At_of_le count_fits]
          rfl
        · rw [u16At_of_lt (Nat.not_le.mp count_fits)]
          rfl
    · rw [if_neg small, if_pos ⟨four, Nat.not_lt.mp small⟩]
      rfl
  · have near : ¬ StartsTooFar (present image offset (offset + 8)) := by
      rintro ⟨four, -⟩
      omega
    have missing : ¬ offset + 8 ≤ image.size := by omega
    rw [if_neg near, if_neg missing, smallAt_of_lt (Nat.not_le.mp address_fits)]
    split <;> rfl

/-- Where the entry with a given index begins. -/
def entryOffset (t : TryTable) (index : Nat) : Nat := t.triesStart + 8 * index

/-- The bytes of an entry, as far as they are in the image. -/
def entryBytes (t : TryTable) (index : Nat) : List UInt8 :=
  present t.image (t.entryOffset index) (t.entryOffset index + 8)

theorem length_entryBytes {t : TryTable} {index : Nat}
    (fits : t.entryOffset index + 8 ≤ t.image.size) : (t.entryBytes index).length = 8 := by
  rw [entryBytes, length_present]
  omega

theorem inCode_ofBytes_iff {t : TryTable} {bs : List UInt8} :
    t.InCode (.ofBytes bs) ↔ field bs 0 4 + field bs 4 2 ≤ t.codeSize.toNat := by
  rw [InCode, TryBlock.toNat_start_ofBytes, TryBlock.toNat_unitCount_ofBytes]

/-- Why an entry is not read.  Of several reasons the first one counts, and that an address is too
large is found before what is missing behind it. -/
inductive Refuses (t : TryTable) (index : Nat) : DecodeError → Prop where
  | unlisted (le : t.count ≤ index) : Refuses t index (.noSuchTryBlock index t.count)
  | tooFar (listed : index < t.count) (far : StartsTooFar (t.entryBytes index)) :
      Refuses t index (.malformed (.smallFieldOutOfRange (t.entryOffset index)))
  | cutOff (listed : index < t.count) (near : ¬ StartsTooFar (t.entryBytes index))
      (short : t.image.size < t.entryOffset index + 8) : Refuses t index .outOfBounds
  | outsideCode (listed : index < t.count) (near : ¬ StartsTooFar (t.entryBytes index))
      (fits : t.entryOffset index + 8 ≤ t.image.size) (checked : t.limits.validateTryRanges)
      (outside : ¬ t.InCode (.ofBytes (t.entryBytes index))) :
      Refuses t index (.malformed (.tryRangeOutsideCode index
        (TryBlock.ofBytes (t.entryBytes index)).start
        (TryBlock.ofBytes (t.entryBytes index)).unitCount t.codeSize))

section
variable {t : TryTable} (image_lt : t.image.size < 2 ^ 63)
include image_lt

-- The entry is looked up, then read, and then checked.
theorem block_eq_entry (index : Nat) : t.block index =
    if index < t.count then
      if StartsTooFar (t.entryBytes index) then
        .error (.malformed (.smallFieldOutOfRange (t.entryOffset index)))
      else if t.entryOffset index + 8 ≤ t.image.size then
        t.checkRange index (.ofBytes (t.entryBytes index))
      else .error .outOfBounds
    else .error (.noSuchTryBlock index t.count) := by
  have read : entryAt t.image (t.triesStart + CodeHeader.tryItemSize * index) = _ :=
    entryAt_eq image_lt (t.entryOffset index)
  rw [block_eq, read, entryBytes]
  split
  · split
    · rfl
    · split <;> rfl
  · rfl

theorem block_eq_ok_iff {index : Nat} {b : TryBlock} : t.block index = .ok b ↔
    index < t.count ∧ t.entryOffset index + 8 ≤ t.image.size ∧
      field (t.entryBytes index) 0 4 < 2 ^ 31 ∧
      (t.limits.validateTryRanges → t.InCode (.ofBytes (t.entryBytes index))) ∧
      b = .ofBytes (t.entryBytes index) := by
  rw [block_eq_entry image_lt]
  split
  · next listed =>
    split
    · next far => exact iff_of_false nofun fun h => Nat.not_lt.mpr far.2 h.2.2.1
    · next near =>
      split
      · next fits =>
        have four : 4 ≤ (t.entryBytes index).length := by
          rw [length_entryBytes fits]
          decide
        rw [checkRange_eq_ok_iff]
        exact ⟨fun h => ⟨listed, fits, (not_startsTooFar_iff four).mp near, h⟩, fun h => h.2.2.2⟩
      · next short => exact iff_of_false nofun fun h => short h.2.1
  · next unlisted => exact iff_of_false nofun fun h => unlisted h.1

theorem block_eq_error_iff {index : Nat} {e : DecodeError} :
    t.block index = .error e ↔ t.Refuses index e := by
  rw [block_eq_entry image_lt]
  constructor
  · intro failed
    split at failed
    · next listed =>
      split at failed
      · next far =>
        cases failed
        exact .tooFar listed far
      · next near =>
        split at failed
        · next fits =>
          obtain ⟨⟨checked, outside⟩, rfl⟩ := checkRange_eq_error_iff.mp failed
          exact .outsideCode listed near fits checked outside
        · next short =>
          cases failed
          exact .cutOff listed near (Nat.not_le.mp short)
    · next unlisted =>
      cases failed
      exact .unlisted (Nat.not_lt.mp unlisted)
  · intro refused
    cases refused with
    | unlisted le => rw [if_neg (Nat.not_lt.mpr le)]
    | tooFar listed far => rw [if_pos listed, if_pos far]
    | cutOff listed near short =>
      rw [if_pos listed, if_neg near, if_neg (Nat.not_le.mpr short)]
    | outsideCode listed near fits checked outside =>
      rw [if_pos listed, if_neg near, if_pos fits]
      exact checkRange_eq_error_iff.mpr ⟨⟨checked, outside⟩, rfl⟩

end

/-! ## 4. Successes -/

/-- An entry is read exactly if it is listed, all of its eight bytes are in the image, its address
fits 31 bits, and its code units end in the code where that is checked.  The block is what these
eight bytes say.  It ends at an address, which is the exact sum, so it covers the addresses from its
start on, as many as it has code units. -/
theorem block_reads_entry {t : TryTable} (image_lt : t.image.size < 2 ^ 63) (index : Nat) :
    let entry := t.triesStart + 8 * index
    let bytes := (t.image.extract entry (entry + 8)).data.toList
    let start := field bytes 0 4
    let unitCount := field bytes 4 2
    ((∃ b, t.block index = .ok b) ↔ index < t.count ∧ entry + 8 ≤ t.image.size ∧ start < 2 ^ 31 ∧
      (t.limits.validateTryRanges → start + unitCount ≤ t.codeSize.toNat)) ∧
    ∀ b, t.block index = .ok b →
      bytes.length = 8 ∧ b.start.toNat = start ∧ b.unitCount.toNat = unitCount ∧
      b.handlerOffset.toNat = field bytes 6 2 ∧
      start + unitCount < 2 ^ 32 ∧ b.stop.toNat = start + unitCount ∧
      ∀ address : UInt32, b.covers address ↔
        start ≤ address.toNat ∧ address.toNat < start + unitCount := by
  intro entry bytes start unitCount
  have inCode_iff : t.InCode (.ofBytes bytes) ↔ start + unitCount ≤ t.codeSize.toNat :=
    inCode_ofBytes_iff
  constructor
  · constructor
    · rintro ⟨b, ok⟩
      obtain ⟨listed, fits, near, inCode, -⟩ := (block_eq_ok_iff image_lt).mp ok
      exact ⟨listed, fits, near, fun checked => inCode_iff.mp (inCode checked)⟩
    · rintro ⟨listed, fits, near, inCode⟩
      exact ⟨_, (block_eq_ok_iff image_lt).mpr
        ⟨listed, fits, near, fun checked => inCode_iff.mpr (inCode checked), rfl⟩⟩
  · intro b ok
    obtain ⟨-, fits, near, -, rfl⟩ := (block_eq_ok_iff image_lt).mp ok
    have start_eq : (TryBlock.ofBytes bytes).start.toNat = start :=
      TryBlock.toNat_start_ofBytes bytes
    have unitCount_eq : (TryBlock.ofBytes bytes).unitCount.toNat = unitCount :=
      TryBlock.toNat_unitCount_ofBytes bytes
    have record_eq := TryBlock.toNat_handlerOffset_ofBytes bytes
    have start_lt : (TryBlock.ofBytes bytes).start.toNat < 2 ^ 31 := by
      rw [start_eq]
      exact near
    have unitCount_lt : unitCount < 2 ^ 16 := field_lt bytes 4 2
    have start_small : start < 2 ^ 31 := near
    refine ⟨length_entryBytes fits, start_eq, unitCount_eq, record_eq, by omega, ?_,
      fun address => ?_⟩
    · rw [← start_eq, ← unitCount_eq]
      exact TryBlock.toNat_stop start_lt
    · rw [← start_eq, ← unitCount_eq]
      exact TryBlock.covers_iff start_lt address

/-- Behind one byte two entries, the second of which ends with the image. -/
def twoEntries : TryTable where
  image := ⟨#[0xee, 0x00, 0x00, 0x00, 0x80, 0xff, 0xff, 0xff, 0xff,
    0xff, 0xff, 0xff, 0x7f, 0xff, 0xff, 0x02, 0x01]⟩
  triesStart := 1
  handlersStart := 17
  count := 2
  codeSize := 0x80000000
  limits := .standard

theorem block_reads_entry_of_twoEntries : twoEntries.image.size < 2 ^ 63 ∧
    (¬ ∃ b, twoEntries.block 0 = .ok b) ∧
    ∃ b, twoEntries.block 1 = .ok b ∧ b.start.toNat = 0x7fffffff ∧
      b.handlerOffset.toNat = 0x0102 ∧ b.stop.toNat = 0x8000fffe := by
  have image_lt : twoEntries.image.size < 2 ^ 63 := by decide
  obtain ⟨first_iff, -⟩ := block_reads_entry image_lt 0
  obtain ⟨second_iff, second⟩ := block_reads_entry image_lt 1
  refine ⟨image_lt, fun ok => absurd (first_iff.mp ok).2.2.1 (by decide), ?_⟩
  obtain ⟨b, ok⟩ := second_iff.mpr ⟨by decide, by decide, by decide, by decide⟩
  obtain ⟨-, start_eq, -, record_eq, -, stop_eq, -⟩ := second b ok
  exact ⟨b, ok, start_eq, record_eq, stop_eq⟩

/-! ## 5. Failures -/

/-- An entry is refused for the first reason that holds: there is no such entry, its address is too
large, it is not all in the image, or it reaches past the code where that is checked.  So an entry
that is cut off is out of bounds unless an address that is too large is left of it. -/
theorem block_refusals {t : TryTable} (image_lt : t.image.size < 2 ^ 63) (index : Nat) :
    let entry := t.triesStart + 8 * index
    let bytes := (t.image.extract entry (entry + 8)).data.toList
    (t.block index = .error (.noSuchTryBlock index t.count) ↔ t.count ≤ index) ∧
    (t.block index = .error .outOfBounds ↔
      index < t.count ∧ t.image.size < entry + 8 ∧ ¬ StartsTooFar bytes) ∧
    ((∃ what, t.block index = .error (.malformed what)) ↔ index < t.count ∧
      (StartsTooFar bytes ∨ entry + 8 ≤ t.image.size ∧ t.limits.validateTryRanges ∧
        t.codeSize.toNat < field bytes 0 4 + field bytes 4 2)) ∧
    ∀ e, t.block index = .error e ↔ t.Refuses index e := by
  intro entry bytes
  have refuses (e : DecodeError) : t.block index = .error e ↔ t.Refuses index e :=
    block_eq_error_iff image_lt
  have outside_iff : ¬ t.InCode (.ofBytes bytes) ↔
      t.codeSize.toNat < field bytes 0 4 + field bytes 4 2 := by
    rw [inCode_ofBytes_iff, Nat.not_le]
  refine ⟨?_, ?_, ?_, refuses⟩
  · rw [refuses]
    constructor
    · rintro ⟨le⟩
      exact le
    · exact .unlisted
  · rw [refuses]
    constructor
    · rintro ⟨⟩
      next listed near short => exact ⟨listed, short, near⟩
    · rintro ⟨listed, short, near⟩
      exact .cutOff listed near short
  · simp only [refuses]
    constructor
    · rintro ⟨what, refused⟩
      cases refused with
      | tooFar listed far => exact ⟨listed, .inl far⟩
      | outsideCode listed near fits checked outside =>
        exact ⟨listed, .inr ⟨fits, checked, outside_iff.mp outside⟩⟩
    · rintro ⟨listed, reason⟩
      by_cases far : StartsTooFar bytes
      · exact ⟨_, .tooFar listed far⟩
      · obtain ⟨fits, checked, outside⟩ := reason.resolve_left far
        exact ⟨_, .outsideCode listed far fits checked (outside_iff.mpr outside)⟩

/-- A table of one entry, of which only an address that is too large is in the image. -/
def cutEntry : TryTable where
  image := ⟨#[0x00, 0x00, 0x00, 0x80]⟩
  triesStart := 0
  handlersStart := 0
  count := 1
  codeSize := 4
  limits := .standard

theorem block_refusals_of_cutEntry : cutEntry.image.size < 2 ^ 63 ∧
    (∃ what, cutEntry.block 0 = .error (.malformed what)) ∧
    cutEntry.block 0 ≠ .error .outOfBounds := by
  have image_lt : cutEntry.image.size < 2 ^ 63 := by decide
  obtain ⟨-, outOfBounds_iff, malformed_iff, -⟩ := block_refusals image_lt 0
  exact ⟨image_lt, malformed_iff.mpr (by decide), fun failed =>
    absurd (outOfBounds_iff.mp failed).2.2 (by decide)⟩

-- So it is not true that an entry that is not all in the image is always out of bounds.
theorem cutEntry_not_outOfBounds : ¬ ∀ (t : TryTable) (index : Nat), t.image.size < 2 ^ 63 →
    index < t.count → t.image.size < t.triesStart + 8 * index + 8 →
    t.block index = .error .outOfBounds := by
  intro always
  have failed := always cutEntry 0 (by decide) (by decide) (by decide)
  cases (show cutEntry.block 0 = .error (.malformed (.smallFieldOutOfRange 0)) from rfl).symm.trans
    failed

end TryTable

end DalvikCode
