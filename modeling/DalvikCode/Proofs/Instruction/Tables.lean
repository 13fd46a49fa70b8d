import DalvikCode.Proofs.Words
import DalvikCode.Proofs.Trapping.Payload
import DalvikCode.Proofs.Instruction.Codec

/-!
# What the tables of a payload report

Keys, targets and elements are cut out of the bytes of a payload when they are asked for.  For a
payload that was decoded, they are the words and the ranges of the image at the places that the
format gives them.
-/

namespace DalvikCode

/-! ## 1. Entries and elements of tables -/

namespace Payload

theorem getElem?_switchEntries {p : Payload} {k : Nat} (lt : k < p.targets.size / 4) :
    p.switchEntries[k]? = some (p.key k, Bytes.i32 p.targets (4 * k)) := by
  rw [switchEntries, List.getElem?_map, List.getElem?_range lt]
  rfl

-- A key that is not spelled out is counted from the first key, and wraps around like it.
theorem key_packedSwitch (firstKey : Int32) (targets : ByteArray) (k : Nat) :
    (packedSwitch firstKey targets).key k = Int32.ofInt (firstKey.toInt + k) := by
  have none : ¬ 4 * k + 4 ≤ (packedSwitch firstKey targets).keys.size := Nat.not_succ_le_zero _
  rw [key, if_neg none, Int32.ofInt_add, Int32.ofInt_toInt]
  rfl

theorem key_sparseSwitch {keys : ByteArray} (targets : ByteArray) {k : Nat}
    (spelled : 4 * k + 4 ≤ keys.size) :
    (sparseSwitch keys targets).key k = Bytes.i32 keys (4 * k) := if_pos spelled

section
variable {width : UInt16} {count : UInt32} {data : ByteArray} {k : Nat}

theorem switchEntries_array : (array width count data).switchEntries = [] := by
  simp only [switchEntries, targets, ByteArray.size_empty, Nat.zero_div, List.range_zero,
    List.map_nil]

theorem element?_of_le (fits : k * width.toNat + width.toNat ≤ data.size) :
    (array width count data).element? k =
      some (data.extract (k * width.toNat) (k * width.toNat + width.toNat)) := by
  rw [element?, Bytes.slice, if_pos fits]
  rfl

-- An element without bytes is found at every index.
theorem element?_of_width_zero : (array 0 count data).element? k = some .empty := by
  rw [element?_of_le (Nat.zero_le _)]
  exact congrArg some ByteArray.extract_same

theorem element?_eq_none_iff :
    (array width count data).element? k = none ↔
      data.size < k * width.toNat + width.toNat := by
  by_cases fits : k * width.toNat + width.toNat ≤ data.size
  · rw [element?_of_le fits]
    exact iff_of_false (Option.some_ne_none _) (Nat.not_lt.mpr fits)
  · rw [element?, Bytes.slice, if_neg fits]
    exact iff_of_true rfl (Nat.not_le.mp fits)

end

/-- The accessors of a payload report the table that stands in the image from `start` on.  There are
as many entries as the size field says, and they are the words of the table in its order; only the
keys of a packed switch are not, which are counted from the first one and wrap around.  The elements
of an array are as many ranges of its width, one behind the other, and they make up its data. -/
def Reports (p : Payload) (image : ByteArray) (start : Nat) : Prop :=
  match p with
  | packedSwitch firstKey _ =>
    ∃ size : UInt16, Bytes.WordAt image (start + 2) 2 size.toBitVec ∧
      Bytes.WordAt image (start + 4) 4 firstKey.toBitVec ∧
      p.switchEntries.length = size.toNat ∧
      (∀ k < size.toNat, ∃ target : Int32,
        Bytes.WordAt image (start + 8 + 4 * k) 4 target.toBitVec ∧
        p.switchEntries[k]? = some (Int32.ofInt (firstKey.toInt + k), target)) ∧
      ∀ k, p.element? k = none
  | sparseSwitch keys _ =>
    ∃ size : UInt16, Bytes.WordAt image (start + 2) 2 size.toBitVec ∧
      p.switchEntries.length = size.toNat ∧
      -- every key is spelled out
      (∀ k < size.toNat, 4 * k + 4 ≤ keys.size ∧ ∃ key target : Int32,
        Bytes.WordAt image (start + 4 + 4 * k) 4 key.toBitVec ∧
        Bytes.WordAt image (start + 4 + 4 * size.toNat + 4 * k) 4 target.toBitVec ∧
        p.switchEntries[k]? = some (key, target)) ∧
      ∀ k, p.element? k = none
  | array width count data =>
    Bytes.WordAt image (start + 2) 2 width.toBitVec ∧
      Bytes.WordAt image (start + 4) 4 count.toBitVec ∧
      p.switchEntries = [] ∧
      (∀ k < count.toNat, ∃ element, p.element? k = some element ∧
        element.size = width.toNat ∧
        element = image.extract (start + 8 + k * width.toNat)
          (start + 8 + k * width.toNat + width.toNat)) ∧
      (List.range count.toNat).flatMap (fun k => ((p.element? k).getD .empty).data.toList) =
        data.data.toList ∧
      data = image.extract (start + 8) (start + 8 + count.toNat * width.toNat)

end Payload

-- The chunks of some data, one after the other, are the data that they were cut out of.
theorem Bytes.flatMap_chunks {data : ByteArray} {width : Nat} {f : Nat → List UInt8} {n : Nat}
    (chunks : ∀ k < n, f k = (data.extract (k * width) (k * width + width)).data.toList) :
    (List.range n).flatMap f = data.data.toList.take (n * width) := by
  induction n with
  | zero => rw [Nat.zero_mul, List.take_zero, List.range_zero, List.flatMap_nil]
  | succ n ih =>
    have before := ih fun k lt => chunks k (Nat.lt_succ_of_lt lt)
    rw [List.range_succ, List.flatMap_append, before, List.flatMap_singleton,
      chunks n (Nat.lt_succ_self n), Cursor.toList_extract, Nat.add_sub_cancel_left, Nat.succ_mul,
      List.take_add]
    rfl

namespace Instruction

/-! ## 2. Where the tables stand -/

-- A decoded payload stands under the cursor, behind its identifier and before what fills it up.
theorem sees_of_decode {address : UInt32} {c c' : Cursor} {i : Instruction} {p : Payload}
    (ok : decode address c = .ok i c') (is : i.operands = .payload p) :
    p.Fits ∧ ∃ pad, pad.length = p.padding ∧
      c.Sees (Bytes.ofNumber 2 p.kind.ident ++ (p.table ++ pad)) ∧
      c' = c.advance (2 + (p.table.length + p.padding)) := by
  obtain ⟨bs, ⟨opcode, format, operands⟩, spells, sees, rfl, rfl⟩ := spells_of_decode ok
  obtain rfl : operands = .payload p := is
  have written := spells_iff_written.mp spells
  cases format with
  | operands format =>
    have fits : (Operands.payload p).Fits opcode format := written.1.2
    cases format <;> exact fits.elim
  | payload kind =>
    obtain ⟨unit, rest, -, rfl, -, rfl, q, ⟨⟨rfl, fits⟩, pad, filled, rfl⟩, same⟩ :=
      written_payload_iff.mp written
    obtain rfl : p = q := Operands.payload.inj same
    refine ⟨fits, pad, filled, sees, ?_⟩
    rw [List.length_append, List.length_append, Bytes.length_ofNumber, filled]

-- The words of a table stand in the image, four bytes apart.
theorem wordAt_of_table {table : ByteArray} {c : Cursor} {k : Nat}
    (sees : c.Sees table.data.toList) (fits : 4 * k + 4 ≤ table.size) :
    Bytes.WordAt c.data (c.pos + 4 * k) 4 (Bytes.i32 table (4 * k)).toBitVec :=
  (Bytes.wordAt_i32 fits).of_part fits sees

-- A count that was read stands in the image.
theorem exists_size {c : Cursor} {n : Nat} (sees : c.Sees (Bytes.ofNumber 2 n)) (lt : n < 0x10000) :
    ∃ size : UInt16, size.toNat = n ∧ Bytes.WordAt c.data c.pos 2 size.toBitVec := by
  have eq : (UInt16.ofNat n).toNat = n := UInt16.toNat_ofNat_of_lt' lt
  refine ⟨UInt16.ofNat n, eq, Bytes.wordAt_of_sees ?_⟩
  rw [UInt16.toNat_toBitVec, eq]
  exact sees

-- The accessors of a decoded payload compute on words what they do on numbers.
theorem accessors_agree {address : UInt32} {c c' : Cursor} {i : Instruction} {p : Payload}
    (ok : decode address c = .ok i c') (is : i.operands = .payload p)
    (size_lt : c.data.size < 2 ^ 63) :
    Trapping.switchEntries p = .ok p.switchEntries ∧ ∀ k, Trapping.element? p k = p.element? k := by
  obtain ⟨-, pad, -, sees, -⟩ := sees_of_decode ok is
  have given : Trapping.SlicedOperands i.operands :=
    (Trapping.gives_decode address c c' i ⟨sees.pos_le, size_lt⟩ ok).1
  rw [is] at given
  exact ⟨Trapping.switchEntries_eq given, Trapping.element?_eq given⟩

/-! ## 3. Switches -/

section
variable {address : UInt32} {c c' : Cursor} {i : Instruction}

theorem packedSwitch_reports {firstKey : Int32} {targets : ByteArray}
    (ok : decode address c = .ok i c')
    (is : i.operands = .payload (.packedSwitch firstKey targets)) :
    (Payload.packedSwitch firstKey targets).Reports c.data c.pos := by
  obtain ⟨⟨whole, small⟩, pad, -, sees, -⟩ := sees_of_decode ok is
  simp only [Payload.table, List.append_assoc, Cursor.sees_append] at sees
  obtain ⟨-, sees_size, sees_key, sees_targets, -⟩ := sees
  obtain ⟨size, eq, size_stands⟩ := exists_size sees_size small
  have length : (Payload.packedSwitch firstKey targets).switchEntries.length = size.toNat := by
    rw [Payload.length_switchEntries, eq]
    rfl
  refine ⟨size, size_stands, Bytes.wordAt_of_sees_signed sees_key, length, fun k lt => ?_,
    fun k => rfl⟩
  rw [eq] at lt
  refine ⟨Bytes.i32 targets (4 * k), wordAt_of_table sees_targets (by omega), ?_⟩
  rw [Payload.getElem?_switchEntries lt, Payload.key_packedSwitch]
  rfl

theorem sparseSwitch_reports {keys targets : ByteArray} (ok : decode address c = .ok i c')
    (is : i.operands = .payload (.sparseSwitch keys targets)) :
    (Payload.sparseSwitch keys targets).Reports c.data c.pos := by
  obtain ⟨⟨whole, small, same⟩, pad, -, sees, -⟩ := sees_of_decode ok is
  simp only [Payload.table, List.append_assoc, Cursor.sees_append] at sees
  obtain ⟨-, sees_size, sees_keys, sees_targets, -⟩ := sees
  obtain ⟨size, eq, size_stands⟩ := exists_size sees_size small
  have length : (Payload.sparseSwitch keys targets).switchEntries.length = size.toNat := by
    rw [Payload.length_switchEntries, eq, ← same]
    rfl
  refine ⟨size, size_stands, length, fun k lt => ?_, fun k => rfl⟩
  rw [eq] at lt
  have spelled : 4 * k + 4 ≤ keys.size := by omega
  have listed : k < targets.size / 4 := by omega
  have behind_keys : keys.data.toList.length = 4 * size.toNat := by
    rw [Bytes.length_toList]
    omega
  refine ⟨spelled, Bytes.i32 keys (4 * k), Bytes.i32 targets (4 * k),
    wordAt_of_table sees_keys spelled, ?_, ?_⟩
  · rw [← behind_keys]
    exact wordAt_of_table sees_targets (by omega)
  · rw [Payload.getElem?_switchEntries listed, Payload.key_sparseSwitch targets spelled]
    rfl

/-! ## 4. Arrays -/

section
variable {width : UInt16} {count : UInt32} {data : ByteArray} (ok : decode address c = .ok i c')
  (is : i.operands = .payload (.array width count data))
include ok is

theorem size_of_decoded_array : data.size = count.toNat * width.toNat := by
  obtain ⟨fits, -⟩ := sees_of_decode ok is
  rw [Nat.mul_comm]
  exact fits

-- An element is there exactly if its index is below the count, or if elements have no bytes.
theorem element?_of_decoded_array (k : Nat) :
    (Payload.array width count data).element? k = none ↔ width ≠ 0 ∧ count.toNat ≤ k := by
  rw [Payload.element?_eq_none_iff, size_of_decoded_array ok is, ← Nat.succ_mul]
  have zero : width ≠ 0 ↔ 0 < width.toNat := by
    rw [Ne, ← UInt16.toNat_inj, Nat.pos_iff_ne_zero]
    rfl
  rw [zero]
  constructor
  · intro lt
    exact ⟨Nat.pos_of_lt_mul_left lt, Nat.le_of_lt_succ (Nat.lt_of_mul_lt_mul_right lt)⟩
  · intro ⟨positive, le⟩
    exact Nat.mul_lt_mul_of_pos_right (Nat.lt_succ_of_le le) positive

theorem array_reports : (Payload.array width count data).Reports c.data c.pos := by
  obtain ⟨-, pad, -, sees, -⟩ := sees_of_decode ok is
  simp only [Payload.table, List.append_assoc, Cursor.sees_append] at sees
  obtain ⟨-, sees_width, sees_count, sees_data, -⟩ := sees
  have size := size_of_decoded_array ok is
  have data_eq : data = c.data.extract (c.pos + 8) (c.pos + 8 + data.size) :=
    sees_data.eq_extract
  have inside (k : Nat) (lt : k < count.toNat) :
      k * width.toNat + width.toNat ≤ data.size := by
    rw [size, ← Nat.succ_mul]
    exact Nat.mul_le_mul_right _ lt
  have elements (k : Nat) (lt : k < count.toNat) : (Payload.array width count data).element? k =
      some (data.extract (k * width.toNat) (k * width.toNat + width.toNat)) :=
    Payload.element?_of_le (inside k lt)
  refine ⟨Bytes.wordAt_of_sees sees_width, Bytes.wordAt_of_sees sees_count,
    Payload.switchEntries_array, fun k lt => ⟨_, elements k lt, ?_, ?_⟩, ?_, size ▸ data_eq⟩
  · have fits := inside k lt
    rw [ByteArray.size_extract]
    omega
  · have fits := inside k lt
    conv => lhs; rw [data_eq, ByteArray.extract_extract]
    congr 1
    omega
  · rw [Bytes.flatMap_chunks fun k lt => by rw [elements k lt]; rfl]
    rw [← size]
    exact List.take_of_length_le (Nat.le_of_eq (Bytes.length_toList data))

end

end

/-! ## 5. All payloads -/

/-- A decoded payload reports the table that stands at its place: it is followed by nothing but the
byte that fills it up.  Word arithmetic finds the same entries and the same elements, without a
trap. -/
theorem payload_reports_table {address : UInt32} {c c' : Cursor} {i : Instruction} {p : Payload}
    (ok : decode address c = .ok i c') (is : i.operands = .payload p) :
    p.Reports c.data c.pos ∧
    i.offset = c.pos ∧ c'.pos = c.pos + 2 + p.table.length + p.padding ∧
    (c.data.size < 2 ^ 63 → Trapping.switchEntries p = .ok p.switchEntries ∧
      ∀ k, Trapping.element? p k = p.element? k) := by
  have stop : c'.pos = c.pos + 2 + p.table.length + p.padding := by
    obtain ⟨-, pad, -, -, rfl⟩ := sees_of_decode ok is
    rw [Cursor.pos_advance]
    omega
  refine ⟨?_, ?_, stop, accessors_agree ok is⟩
  · cases p with
    | packedSwitch firstKey targets => exact packedSwitch_reports ok is
    | sparseSwitch keys targets => exact sparseSwitch_reports ok is
    | array width count data => exact array_reports ok is
  · obtain ⟨bs, x, -, -, -, rfl⟩ := spells_of_decode ok
    rfl

/-- A switch whose second key is the least word, as its first one is the greatest. -/
def wrappingSwitch : ByteArray :=
  ⟨#[0x00, 0x01, 2, 0, 0xff, 0xff, 0xff, 0x7f, 4, 0, 0, 0, 0xfe, 0xff, 0xff, 0xff]⟩

/-- An array of one element of three bytes, behind another byte. -/
def filledArray : ByteArray := ⟨#[0x55, 0x00, 0x03, 3, 0, 1, 0, 0, 0, 0xaa, 0xbb, 0xcc, 0xff]⟩

theorem payload_reports_table_of_wrappingSwitch_and_filledArray :
    (∃ i c' targets, decode 0 (.start wrappingSwitch) = .ok i c' ∧
      i.operands = .payload (.packedSwitch Int32.maxValue targets) ∧
      ∃ target : Int32, Bytes.WordAt wrappingSwitch 12 4 target.toBitVec ∧
        (Payload.packedSwitch Int32.maxValue targets).switchEntries[1]? =
          some (Int32.minValue, target)) ∧
    ∃ i c', decode 0 ⟨filledArray, 1⟩ = .ok i c' ∧ c'.pos = 13 ∧
      i.operands = .payload (.array 3 1 ⟨#[0xaa, 0xbb, 0xcc]⟩) ∧
      (Payload.array 3 1 ⟨#[0xaa, 0xbb, 0xcc]⟩).element? 0 = some (filledArray.extract 9 12) := by
  have ok : decode 0 (.start wrappingSwitch) = .ok _ ⟨wrappingSwitch, 16⟩ := rfl
  have ok' : decode 0 ⟨filledArray, 1⟩ = .ok _ ⟨filledArray, 13⟩ := rfl
  obtain ⟨⟨size, -, -, length, entries, -⟩, -⟩ := payload_reports_table ok rfl
  obtain ⟨⟨-, -, -, elements, -⟩, -, stop, -⟩ := payload_reports_table ok' rfl
  constructor
  · rw [Payload.length_switchEntries] at length
    have second : 1 < size.toNat := length ▸ by decide
    obtain ⟨target, stands, entry⟩ := entries 1 second
    exact ⟨_, _, _, ok, rfl, target, stands, entry⟩
  · obtain ⟨element, found, -, rfl⟩ := elements 0 (by decide)
    exact ⟨_, _, ok', stop, rfl, found⟩

/-- An array element is missing exactly if its index is not below the count and elements have bytes:
elements of no bytes are found at every index.  Word arithmetic finds the same elements, because
a product or a sum that is no word lies outside of the data. -/
theorem arrayElements_by_count {address : UInt32} {c c' : Cursor} {i : Instruction}
    {width : UInt16} {count : UInt32} {data : ByteArray} (ok : decode address c = .ok i c')
    (is : i.operands = .payload (.array width count data)) (k : Nat) :
    ((Payload.array width count data).element? k = none ↔ width ≠ 0 ∧ count.toNat ≤ k) ∧
    (width = 0 → (Payload.array width count data).element? k = some .empty) ∧
    (c.data.size < 2 ^ 63 → Trapping.element? (.array width count data) k =
      (Payload.array width count data).element? k) := by
  refine ⟨element?_of_decoded_array ok is k, ?_, fun size_lt => (accessors_agree ok is size_lt).2 k⟩
  intro zero
  subst zero
  exact Payload.element?_of_width_zero

/-- An array of two elements without bytes, and one of two elements of one byte. -/
def twoElements (width : UInt8) (bytes : List UInt8) : ByteArray :=
  ([0x00, 0x03, width, 0, 2, 0, 0, 0] ++ bytes).toByteArray

theorem arrayElements_by_count_of_width_zero_and_one :
    (∃ i c', decode 0 (.start (twoElements 0 [])) = .ok i c' ∧
      i.operands = .payload (.array 0 2 .empty) ∧
      (Payload.array 0 2 .empty).element? 2 = some .empty) ∧
    ∃ i c', decode 0 (.start (twoElements 1 [5, 6])) = .ok i c' ∧
      i.operands = .payload (.array 1 2 ⟨#[5, 6]⟩) ∧
      (Payload.array 1 2 ⟨#[5, 6]⟩).element? (2 ^ 64 - 1) = none ∧
      Trapping.element? (.array 1 2 ⟨#[5, 6]⟩) (2 ^ 64 - 1) = none := by
  have ok : decode 0 (.start (twoElements 0 [])) = .ok _ ⟨twoElements 0 [], 8⟩ := rfl
  have ok' : decode 0 (.start (twoElements 1 [5, 6])) = .ok _ ⟨twoElements 1 [5, 6], 10⟩ := rfl
  obtain ⟨-, empty, -⟩ := arrayElements_by_count ok rfl 2
  obtain ⟨missing, -, agree⟩ := arrayElements_by_count ok' rfl (2 ^ 64 - 1)
  have none := missing.mpr ⟨by decide, by decide⟩
  exact ⟨⟨_, _, ok, rfl, empty rfl⟩, _, _, ok', rfl, none, (agree (by decide)).trans none⟩

-- Elements without bytes are found behind the last one, too.
theorem arrayElement_beyond_count :
    ¬ ∀ (address : UInt32) (c c' : Cursor) (i : Instruction) (width : UInt16) (count : UInt32)
      (data : ByteArray), decode address c = .ok i c' →
      i.operands = .payload (.array width count data) → ∀ k, count.toNat ≤ k →
      (Payload.array width count data).element? k = none := by
  intro counted
  have ok : decode 0 (.start (twoElements 0 [])) = .ok _ ⟨twoElements 0 [], 8⟩ := rfl
  have none := counted 0 _ _ _ 0 2 .empty ok rfl 2 (Nat.le_refl 2)
  rw [Payload.element?_of_width_zero] at none
  cases none

end Instruction

end DalvikCode
