import DalvikCode.Method.Body
import DalvikCode.Proofs.Method.Entries
import DalvikCode.Proofs.Method.Records

/-!
# Code items, written and read

A code item that is laid out anywhere in an image is read back part by part.  Each part is found
from those before it: the instructions behind the header, the try items behind the padding, the
handler records behind the try items, and each record by its distance from the first one.
-/

namespace DalvikCode

/-! ## 1. What can be written -/

/-- Whether the fields of a record can hold its parts.  A record without any handler cannot be
written: its size would announce a catch-all. -/
structure HandlerRecord.Encodable (r : HandlerRecord) : Prop where
  length_lt : r.typed.length < 2 ^ 31
  typed_lt : ∀ h ∈ r.typed, h.1.toNat < 2 ^ 31 ∧ h.2.toNat < 2 ^ 31
  catchAll_lt : ∀ address ∈ r.catchAll?, address.toNat < 2 ^ 31
  nonempty : r.typed ≠ [] ∨ r.catchAll? ≠ none

instance (r : HandlerRecord) : Decidable r.Encodable :=
  -- through the members, of which there are few; there are also only finitely many words
  have : Decidable (∀ h ∈ r.typed, h.1.toNat < 2 ^ 31 ∧ h.2.toNat < 2 ^ 31) :=
    List.decidableBAll _ _
  have : Decidable (∀ address ∈ r.catchAll?, address.toNat < 2 ^ 31) :=
    Option.decidableForallMem _
  decidable_of_iff (r.typed.length < 2 ^ 31 ∧
      (∀ h ∈ r.typed, h.1.toNat < 2 ^ 31 ∧ h.2.toNat < 2 ^ 31) ∧
      (∀ address ∈ r.catchAll?, address.toNat < 2 ^ 31) ∧ (r.typed ≠ [] ∨ r.catchAll? ≠ none))
    ⟨fun ⟨length, typed, catchAll, nonempty⟩ => ⟨length, typed, catchAll, nonempty⟩,
      fun h => ⟨h.length_lt, h.typed_lt, h.catchAll_lt, h.nonempty⟩⟩

/-- Whether the fields of an item can hold its parts. -/
structure CodeItem.Encodable (c : CodeItem) : Prop where
  debugInfoOffset_lt : c.debugInfoOffset.toNat < 2 ^ 31
  units_lt : c.units.length < 2 ^ 31
  tries_lt : c.tries.length < 2 ^ 16
  start_lt : ∀ entry ∈ c.tries, entry.start.toNat < 2 ^ 31
  record_lt : ∀ entry ∈ c.tries, entry.record < c.records.length
  recordOffset_lt : ∀ entry ∈ c.tries, c.recordOffset entry.record < 2 ^ 16
  records : ∀ r ∈ c.records, r.Encodable

instance (c : CodeItem) : Decidable c.Encodable :=
  decidable_of_iff (c.debugInfoOffset.toNat < 2 ^ 31 ∧ c.units.length < 2 ^ 31 ∧
      c.tries.length < 2 ^ 16 ∧ (∀ entry ∈ c.tries, entry.start.toNat < 2 ^ 31) ∧
      (∀ entry ∈ c.tries, entry.record < c.records.length) ∧
      (∀ entry ∈ c.tries, c.recordOffset entry.record < 2 ^ 16) ∧ ∀ r ∈ c.records, r.Encodable)
    ⟨fun ⟨debugInfoOffset, units, tries, start, record, recordOffset, records⟩ =>
        ⟨debugInfoOffset, units, tries, start, record, recordOffset, records⟩,
      fun h => ⟨h.debugInfoOffset_lt, h.units_lt, h.tries_lt, h.start_lt, h.record_lt,
        h.recordOffset_lt, h.records⟩⟩

/-! ## 2. Handler records -/

namespace HandlerRecord

theorem natAbs_size (r : HandlerRecord) : r.size.natAbs = r.typed.length := by
  rw [size]
  split
  · exact Int.natAbs_neg _
  · rfl

theorem toInt_ofInt_size {r : HandlerRecord} (h : r.Encodable) :
    (Int32.ofInt r.size).toInt = r.size := by
  have length := h.length_lt
  have bound := r.natAbs_size
  exact Int32.toInt_ofInt_of_le (by omega) (by omega)

/-- What is written for a record is an encoding of it. -/
theorem encodes_encode {r : HandlerRecord} (h : r.Encodable) :
    Encodes (Int32.ofInt r.size) r r.encode where
  length_typed := by rw [toInt_ofInt_size h, natAbs_size]
  isSome_catchAll? := by
    have nonempty := h.nonempty
    rw [toInt_ofInt_size h, size]
    cases catchAll : r.catchAll? with
    | none =>
      have typed := nonempty.resolve_right fun some => some catchAll
      simpa using typed
    | some address => simp
  bytes := by
    have length := h.length_lt
    have bound := r.natAbs_size
    have word : Leb128.Word (Int32.ofInt r.size) (Leb128.ofSigned r.size) :=
      ⟨r.size, Leb128.signed_ofSigned (by omega) (by omega), rfl⟩
    have pairs : Row EncodesPair r.typed
        (r.typed.flatMap fun h => Leb128.ofUnsigned h.1.toNat ++ Leb128.ofUnsigned h.2.toNat) :=
      .flatMap fun pair mem => ⟨_, _, Leb128.small_ofUnsigned (h.typed_lt pair mem).1,
        Leb128.small_ofUnsigned (h.typed_lt pair mem).2, rfl⟩
    refine ⟨_, _, r.catchAll?.toList.flatMap fun address => Leb128.ofUnsigned address.toNat, word,
      pairs, ?_, by rw [encode, List.append_assoc]⟩
    cases catchAll : r.catchAll? with
    | none => rfl
    | some address =>
      simp only [Option.toList_some, List.flatMap_cons, List.flatMap_nil, List.append_nil]
      exact Leb128.small_ofUnsigned (h.catchAll_lt address catchAll)

end HandlerRecord

namespace TryTable

/-- A record that declares no more handlers than the limits admit is read back. -/
theorem reads_readRecord {r : HandlerRecord} (h : r.Encodable) {limits : Limits} (record : Nat)
    (admitted : r.typed.length ≤ limits.maxHandlers) :
    Reads (readRecord limits record) r.handlers r.encode := by
  apply (parses_readRecord limits record).reads
  refine ⟨_, r, HandlerRecord.encodes_encode h, ?_, rfl⟩
  rwa [HandlerRecord.toInt_ofInt_size h, r.natAbs_size]

-- A record that declares more handlers is refused by its size.
theorem readRecord_of_tooMany {r : HandlerRecord} (h : r.Encodable) {limits : Limits} (record : Nat)
    (refused : limits.maxHandlers < r.typed.length) {c : Cursor} (sees : c.Sees r.encode) :
    ∃ c', readRecord limits record c =
      .error (.malformed (.tooManyHandlers record r.typed.length)) c' := by
  have declared : (Int32.ofInt r.size).toInt.natAbs = r.typed.length := by
    rw [HandlerRecord.toInt_ofInt_size h, r.natAbs_size]
  obtain ⟨xs, ys, zs, word, -, -, eq⟩ := (HandlerRecord.encodes_encode h).bytes
  rw [eq, Cursor.sees_append] at sees
  rw [← declared] at refused ⊢
  exact ⟨_, readRecord_of_refused record word sees.1 refused⟩

end TryTable

/-! ## 3. Headers -/

namespace CodeItem

/-- The header of an item that stands at `offset`. -/
def header (c : CodeItem) (offset : Nat) : CodeHeader where
  codeOffset := offset
  registers := c.registers
  ins := c.ins
  outs := c.outs
  tries := UInt16.ofNat c.tries.length
  debugInfoOffset := c.debugInfoOffset
  codeSize := UInt32.ofNat c.units.length

theorem length_headerBytes (c : CodeItem) : c.headerBytes.length = CodeHeader.byteSize := by
  simp only [headerBytes, List.length_append, Bytes.length_ofNumber, CodeHeader.byteSize]

theorem length_unitBytes (c : CodeItem) : c.unitBytes.length = 2 * c.units.length := by
  rw [unitBytes]
  induction c.units with
  | nil => rfl
  | cons unit units ih =>
    rw [List.flatMap_cons, List.length_append, Bytes.length_ofNumber, List.length_cons, ih]
    omega

theorem length_flatMap_tryBytes (c : CodeItem) (entries : List TryEntry) :
    (entries.flatMap c.tryBytes).length = CodeHeader.tryItemSize * entries.length := by
  have each (entry : TryEntry) : (c.tryBytes entry).length = CodeHeader.tryItemSize := by
    simp only [tryBytes, List.length_append, Bytes.length_ofNumber, CodeHeader.tryItemSize]
  induction entries with
  | nil => rfl
  | cons entry entries ih =>
    rw [List.flatMap_cons, List.length_append, each, List.length_cons, ih, Nat.mul_succ,
      Nat.add_comm]

theorem read_header {c : CodeItem} (h : c.Encodable) {image : ByteArray} {offset : Nat}
    (sees : (⟨image, offset⟩ : Cursor).Sees c.headerBytes) :
    CodeHeader.read image offset = .ok (c.header offset) := by
  have fits := sees.add_length_le
  rw [length_headerBytes] at fits
  simp only [headerBytes, Cursor.sees_append, Cursor.advance, List.length_append,
    Bytes.length_ofNumber] at sees
  -- field by field, each behind those before it
  obtain ⟨⟨⟨⟨⟨registers, ins⟩, outs⟩, tries⟩, debugInfoOffset⟩, codeSize⟩ := sees
  rw [CodeHeader.read]
  show (if offset + CodeHeader.byteSize ≤ image.size then _ else _) = _
  rw [if_pos fits, Bytes.u16At_of_sees c.registers.toNat_lt registers,
    Bytes.u16At_of_sees c.ins.toNat_lt ins, Bytes.u16At_of_sees c.outs.toNat_lt outs,
    Bytes.u16At_of_sees h.tries_lt tries,
    Bytes.smallAt_of_sees h.debugInfoOffset_lt debugInfoOffset,
    Bytes.smallAt_of_sees h.units_lt codeSize, UInt16.ofNat_toNat, UInt16.ofNat_toNat,
    UInt16.ofNat_toNat, UInt32.ofNat_toNat]
  rfl

/-! ## 4. Tables of try blocks -/

/-- The try block that an entry stands for. -/
def tryBlock (c : CodeItem) (entry : TryEntry) : TryBlock where
  start := entry.start
  unitCount := entry.unitCount
  handlerOffset := UInt16.ofNat (c.recordOffset entry.record)

theorem toNat_stop_tryBlock {c : CodeItem} (h : c.Encodable) {entry : TryEntry}
    (mem : entry ∈ c.tries) :
    (c.tryBlock entry).stop.toNat = entry.start.toNat + entry.unitCount.toNat := by
  exact TryBlock.toNat_stop (show (c.tryBlock entry).start.toNat < 2 ^ 31 from h.start_lt entry mem)

-- Where an item is laid out, its try items begin at the next multiple of four.
theorem aligned_eq (c : CodeItem) (offset : Nat) :
    (offset + CodeHeader.byteSize + 2 * c.units.length + 3) / 4 * 4 =
      offset + CodeHeader.byteSize + 2 * c.units.length + c.padding offset := by
  rw [padding]
  omega

section
variable {c : CodeItem} (h : c.Encodable)
include h

theorem toNat_codeSize (offset : Nat) : (c.header offset).codeSize.toNat = c.units.length :=
  UInt32.toNat_ofNat_of_lt' (Nat.lt_trans h.units_lt (by decide))

theorem toNat_tries (offset : Nat) : (c.header offset).tries.toNat = c.tries.length :=
  UInt16.toNat_ofNat_of_lt' h.tries_lt

theorem instructionsStop_header {offset : Nat}
    (fits : offset + CodeHeader.byteSize + 2 * c.units.length < 2 ^ 63) :
    (c.header offset).instructionsStop =
      .ok (offset + CodeHeader.byteSize + 2 * c.units.length) := by
  rw [CodeHeader.instructionsStop, toNat_codeSize h]
  exact if_pos (Nat.lt_trans fits (by decide))

theorem triesStart_header {offset : Nat}
    (fits : offset + CodeHeader.byteSize + 2 * c.units.length < 2 ^ 63) :
    (c.header offset).triesStart =
      .ok (offset + CodeHeader.byteSize + 2 * c.units.length + c.padding offset) := by
  have small : offset + CodeHeader.byteSize + 2 * c.units.length + 3 < 2 ^ 64 := by omega
  rw [CodeHeader.triesStart, instructionsStop_header h fits, ← c.aligned_eq]
  show (checkedOffset (offset + CodeHeader.byteSize + 2 * c.units.length + 3) >>= _) = _
  rw [checkedOffset, if_pos small]
  rfl

theorem handlersStart_header {offset : Nat}
    (fits : offset + CodeHeader.byteSize + 2 * c.units.length + c.padding offset +
      CodeHeader.tryItemSize * c.tries.length < 2 ^ 63) :
    (c.header offset).handlersStart =
      .ok (offset + CodeHeader.byteSize + 2 * c.units.length + c.padding offset +
        CodeHeader.tryItemSize * c.tries.length) := by
  rw [CodeHeader.handlersStart, triesStart_header h (by omega), toNat_tries h]
  exact if_pos (Nat.lt_trans fits (by decide))

end

end CodeItem

namespace TryTable

/-- The table stands where the entries and the records of an item were written. -/
structure Stores (t : TryTable) (c : CodeItem) : Prop where
  count : t.count = c.tries.length
  codeSize : t.codeSize = UInt32.ofNat c.units.length
  entries : (⟨t.image, t.triesStart⟩ : Cursor).Sees (c.tries.flatMap c.tryBytes)
  records : (⟨t.image, t.handlersStart⟩ : Cursor).Sees (c.recordBytes c.records.length)
  before : t.triesStart + CodeHeader.tryItemSize * c.tries.length ≤ t.handlersStart
  addressable : t.handlersStart + (c.recordBytes c.records.length).length < 2 ^ 63

section
variable {t : TryTable} {c : CodeItem} (stores : t.Stores c) (h : c.Encodable)
include stores h

-- An entry is read back; what is left is the check of its range, if the limits ask for it.
theorem block_of_stores (i : Nat) (lt : i < c.tries.length) :
    t.block i =
      if t.limits.validateTryRanges ∧
          c.units.length < c.tries[i].start.toNat + c.tries[i].unitCount.toNat then
        .error (.malformed (.tryRangeOutsideCode i c.tries[i].start c.tries[i].unitCount
          (UInt32.ofNat c.units.length)))
      else .ok (c.tryBlock c.tries[i]) := by
  have mem : c.tries[i] ∈ c.tries := List.getElem_mem lt
  -- the entries before it are of one size, so it stands at a multiple of that
  have sees := Cursor.sees_getElem_of_flatMap stores.entries i lt
  rw [c.length_flatMap_tryBytes, List.length_take, Nat.min_eq_left (Nat.le_of_lt lt)] at sees
  simp only [CodeItem.tryBytes, Cursor.sees_append, Cursor.advance, List.length_append,
    Bytes.length_ofNumber] at sees
  obtain ⟨⟨start, unitCount⟩, handlerOffset⟩ := sees
  have offset_lt : t.triesStart + CodeHeader.tryItemSize * i + CodeHeader.tryItemSize < 2 ^ 64 := by
    have before := stores.before
    have addressable := stores.addressable
    rw [CodeHeader.tryItemSize] at before ⊢
    omega
  have start_eq := Bytes.smallAt_of_sees (h.start_lt _ mem) start
  have unitCount_eq := Bytes.u16At_of_sees c.tries[i].unitCount.toNat_lt unitCount
  have handlerOffset_eq := Bytes.u16At_of_sees (h.recordOffset_lt _ mem) handlerOffset
  have codeSize : t.codeSize.toNat = c.units.length := by
    rw [stores.codeSize]
    exact CodeItem.toNat_codeSize h 0
  rw [UInt32.ofNat_toNat] at start_eq
  rw [UInt16.ofNat_toNat] at unitCount_eq
  have outside : ¬ t.InCode (c.tryBlock c.tries[i]) ↔
      c.units.length < c.tries[i].start.toNat + c.tries[i].unitCount.toNat := by
    rw [InCode, codeSize, Nat.not_le]
    rfl
  simp only [block, stores.count, if_pos lt, checkedOffset, if_pos offset_lt, start_eq,
    unitCount_eq, handlerOffset_eq]
  change (if t.limits.validateTryRanges ∧ ¬ t.InCode (c.tryBlock c.tries[i]) then _ else _) = _
  rw [stores.codeSize]
  by_cases refused : t.limits.validateTryRanges ∧ ¬ t.InCode (c.tryBlock c.tries[i])
  · rw [if_pos refused, if_pos ⟨refused.1, outside.mp refused.2⟩]
    rfl
  · rw [if_neg refused, if_neg fun h => refused ⟨h.1, outside.mpr h.2⟩]
    rfl

theorem recordOffset_of_stores {entry : TryEntry} (mem : entry ∈ c.tries) :
    t.recordOffset (c.tryBlock entry) = t.handlersStart + c.recordOffset entry.record := by
  have offset := h.recordOffset_lt entry mem
  have addressable := stores.addressable
  -- the sum of the offsets is a word, so it does not saturate
  rw [recordOffset, CodeItem.tryBlock, UInt16.toNat_ofNat_of_lt' offset]
  omega

-- A record stands where its entries look for it.
theorem sees_record {entry : TryEntry} (mem : entry ∈ c.tries) {r : HandlerRecord}
    (named : c.records[entry.record]? = some r) :
    (⟨t.image, t.recordOffset (c.tryBlock entry)⟩ : Cursor).Sees r.encode := by
  -- records are of any size, so the offset is the length of the records before it
  obtain ⟨lt, rfl⟩ := List.getElem?_eq_some_iff.mp named
  have sees := stores.records
  rw [CodeItem.recordBytes, List.take_length, Cursor.sees_append] at sees
  have record := Cursor.sees_getElem_of_flatMap sees.2 entry.record lt
  rw [Cursor.advance_advance] at record
  rw [recordOffset_of_stores stores h mem, CodeItem.recordOffset, CodeItem.recordBytes,
    List.length_append]
  exact record

/-- The handlers of an entry are those of its record. -/
theorem handlers_of_stores {entry : TryEntry} (mem : entry ∈ c.tries) {r : HandlerRecord}
    (named : c.records[entry.record]? = some r) :
    t.handlers (c.tryBlock entry) =
      if t.limits.maxHandlers < r.typed.length then
        .error (.malformed (.tooManyHandlers (t.recordOffset (c.tryBlock entry)) r.typed.length))
      else .ok r.handlers := by
  have encodable := h.records r (List.mem_of_getElem? named)
  have sees := sees_record stores h mem named
  have inside : t.recordOffset (c.tryBlock entry) ≤ t.image.size := sees.pos_le
  rw [handlers, Cursor.at?, if_pos inside, ok_bind]
  by_cases refused : t.limits.maxHandlers < r.typed.length
  · obtain ⟨c', failed⟩ := readRecord_of_tooMany encodable _ refused sees
    rw [failed, if_pos refused]
  · have reads := reads_readRecord encodable (t.recordOffset (c.tryBlock entry))
      (Nat.not_lt.mp refused)
    rw [reads.whole _ sees, if_neg refused]

theorem catchAll?_of_stores {entry : TryEntry} (mem : entry ∈ c.tries) {r : HandlerRecord}
    (named : c.records[entry.record]? = some r) (admitted : r.typed.length ≤ t.limits.maxHandlers) :
    t.catchAll? (c.tryBlock entry) = .ok r.catchAll? := by
  rw [catchAll?, handlers_of_stores stores h mem named, if_neg (Nat.not_lt.mpr admitted)]
  exact congrArg Except.ok r.catchAll?_handlers

end

/-- The table gives back the entries of an item with their handlers, under the given limits. -/
structure Shows (t : TryTable) (c : CodeItem) (limits : Limits) : Prop where
  count : t.count = c.tries.length
  block : ∀ (i : Nat) (lt : i < c.tries.length), t.block i =
    if limits.validateTryRanges ∧
        c.units.length < c.tries[i].start.toNat + c.tries[i].unitCount.toNat then
      .error (.malformed (.tryRangeOutsideCode i c.tries[i].start c.tries[i].unitCount
        (UInt32.ofNat c.units.length)))
    else .ok (c.tryBlock c.tries[i])
  past : ∀ i, c.tries.length ≤ i → t.block i = .error (.noSuchTryBlock i c.tries.length)
  stop : ∀ entry ∈ c.tries,
    (c.tryBlock entry).stop.toNat = entry.start.toNat + entry.unitCount.toNat
  handlers : ∀ entry ∈ c.tries, ∀ r, c.records[entry.record]? = some r →
    t.handlers (c.tryBlock entry) =
      if limits.maxHandlers < r.typed.length then
        .error (.malformed (.tooManyHandlers (t.recordOffset (c.tryBlock entry)) r.typed.length))
      else .ok r.handlers
  catchAll? : ∀ entry ∈ c.tries, ∀ r, c.records[entry.record]? = some r →
    r.typed.length ≤ limits.maxHandlers → t.catchAll? (c.tryBlock entry) = .ok r.catchAll?

theorem block_of_le {t : TryTable} {i : Nat} (h : t.count ≤ i) :
    t.block i = .error (.noSuchTryBlock i t.count) := by
  rw [block, if_neg (Nat.not_lt.mpr h)]
  rfl

theorem shows_of_stores {t : TryTable} {c : CodeItem} (stores : t.Stores c) (h : c.Encodable) :
    t.Shows c t.limits where
  count := stores.count
  block := block_of_stores stores h
  past i le := by
    rw [← stores.count] at le ⊢
    exact block_of_le le
  stop _ mem := CodeItem.toNat_stop_tryBlock h mem
  handlers _ mem _ named := handlers_of_stores stores h mem named
  catchAll? _ mem _ named admitted := catchAll?_of_stores stores h mem named admitted

theorem shows_empty {image : ByteArray} {c : CodeItem} {limits : Limits} (h : c.tries = []) :
    (TryTable.empty image).Shows c limits := by
  refine ⟨by rw [h]; rfl, ?_, ?_, ?_, ?_, ?_⟩
  all_goals rw [h]
  · intro i lt
    exact absurd lt (Nat.not_lt_zero i)
  · intro i _
    exact block_of_le (Nat.zero_le i)
  · intro entry mem
    cases mem
  · intro entry mem
    cases mem
  · intro entry mem
    cases mem

end TryTable

/-! ## 5. Bodies -/

namespace MethodBody

/-- The body of an item that stands at `offset` of an image. -/
def ofItem (c : CodeItem) (image : ByteArray) (offset : Nat) (context : MethodContext)
    (limits : Limits) : MethodBody where
  image
  header := c.header offset
  codeStop := offset + CodeHeader.byteSize + 2 * c.units.length
  context
  limits

/-- The body gives back the header and the code units of an item that stands at `offset`. -/
structure Shows (b : MethodBody) (c : CodeItem) (offset : Nat) : Prop where
  registers : b.header.registers = c.registers
  ins : b.header.ins = c.ins
  outs : b.header.outs = c.outs
  tries : b.header.tries.toNat = c.tries.length
  debugInfoOffset : b.header.debugInfoOffset = c.debugInfoOffset
  codeSize : b.header.codeSize.toNat = c.units.length
  start : b.instructions.start = offset + CodeHeader.byteSize
  stop : b.instructions.stop = b.instructions.start + 2 * c.units.length
  bytes : (b.image.extract b.instructions.start b.instructions.stop).data.toList = c.unitBytes

section
variable {c : CodeItem} (h : c.Encodable) {image : ByteArray} {offset : Nat}
variable (context : MethodContext) (limits : Limits)
include h

theorem read_of_sees (fits : offset + CodeHeader.byteSize + 2 * c.units.length < 2 ^ 63)
    (header : (⟨image, offset⟩ : Cursor).Sees c.headerBytes) :
    read image offset context limits = .ok (ofItem c image offset context limits) := by
  rw [read, CodeItem.read_header h header]
  show ((c.header offset).instructionsStop >>= _) = _
  rw [CodeItem.instructionsStop_header h fits]
  rfl

theorem shows_ofItem
    (units : (⟨image, offset + CodeHeader.byteSize⟩ : Cursor).Sees c.unitBytes) :
    (ofItem c image offset context limits).Shows c offset := by
  have bounded := units.add_length_le
  rw [c.length_unitBytes] at bounded
  have bytes := (Cursor.sees_and_length_iff (Nat.le_add_right _ _) bounded).mp
    ⟨units, by rw [c.length_unitBytes]⟩
  exact ⟨rfl, rfl, rfl, CodeItem.toNat_tries h offset, rfl, CodeItem.toNat_codeSize h offset, rfl,
    rfl, bytes.symm⟩

-- Behind the code units, the padding leads to the try items, and these to the records.
theorem tryTable_ofItem (some : c.tries ≠ [])
    (fits : offset + CodeHeader.byteSize + 2 * c.units.length + c.padding offset +
      CodeHeader.tryItemSize * c.tries.length + (c.recordBytes c.records.length).length < 2 ^ 63)
    (sees : (⟨image, offset + CodeHeader.byteSize + 2 * c.units.length⟩ : Cursor).Sees
      (List.replicate (c.padding offset) 0 ++ c.tries.flatMap c.tryBytes ++
        c.recordBytes c.records.length)) :
    ∃ t, (ofItem c image offset context limits).tryTable = .ok t ∧ t.Stores c ∧
      t.limits = limits := by
  rw [List.append_assoc, Cursor.sees_append, Cursor.sees_append] at sees
  obtain ⟨-, entries, records⟩ := sees
  rw [List.length_replicate] at entries records
  rw [c.length_flatMap_tryBytes] at records
  -- a number of entries below `2 ^ 16` does not become zero in its field
  have declared : (c.header offset).tries ≠ 0 := by
    intro zero
    have length := CodeItem.toNat_tries h offset
    rw [zero] at length
    exact some (List.length_eq_zero_iff.mp length.symm)
  rw [tryTable]
  show ∃ t, (if (c.header offset).tries = 0 then _ else _) = Except.ok t ∧ _
  rw [if_neg declared]
  show ∃ t, ((c.header offset).triesStart >>= fun _ => (c.header offset).handlersStart >>= _) =
    Except.ok t ∧ _
  rw [CodeItem.triesStart_header h (by omega), CodeItem.handlersStart_header h (by omega)]
  refine ⟨_, rfl, ?_, rfl⟩
  exact
    { count := CodeItem.toNat_tries h offset
      codeSize := rfl
      entries := entries
      records := records
      before := Nat.le_refl _
      addressable := fits }

end

end MethodBody

end DalvikCode
