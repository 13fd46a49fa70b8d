import DalvikCode.Proofs.Grammar

/-!
# Words in the data

A word of `width` bytes stands at an offset if each of its bytes, from the lowest eight bits on, is
the next byte of the data.  A number that is read out of the data is such a word, in two's
complement if the number is signed.
-/

namespace DalvikCode

/-! ## 1. Parts of the data -/

theorem Bytes.length_toList (data : ByteArray) : data.data.toList.length = data.size := by
  rw [Array.length_toList, ByteArray.size_data]

-- A part of the data is the range where a cursor sees its bytes.
theorem Cursor.Sees.eq_extract {part : ByteArray} {c : Cursor} (sees : c.Sees part.data.toList) :
    part = c.data.extract c.pos (c.pos + part.size) := by
  have bounded := sees.add_length_le
  rw [Bytes.length_toList] at bounded
  apply ByteArray.ext
  apply Array.toList_inj.mp
  apply (sees_and_length_iff (Nat.le_add_right _ _) bounded).mp
  exact ⟨sees, by rw [Bytes.length_toList]⟩

/-! ## 2. Bytes of a word -/

namespace Bytes

-- The bytes of a number are its digits.
theorem getElem?_ofNumber {width k : Nat} (n : Nat) (lt : k < width) :
    (ofNumber width n)[k]? = some (UInt8.ofNat (n / 256 ^ k)) := by
  induction width generalizing n k with
  | zero => omega
  | succ width ih =>
    cases k with
    | zero => rw [ofNumber, List.getElem?_cons_zero, Nat.pow_zero, Nat.div_one]
    | succ k =>
      rw [ofNumber, List.getElem?_cons_succ, ih (n / 256) (Nat.lt_of_succ_lt_succ lt),
        Nat.div_div_eq_div_mul, Nat.pow_succ']

theorem ofBitVec_extractLsb' {width : Nat} (word : BitVec (8 * width)) (k : Nat) :
    UInt8.ofBitVec (word.extractLsb' (8 * k) 8) = UInt8.ofNat (word.toNat / 256 ^ k) := by
  have places : 2 ^ (8 * k) = 256 ^ k := Nat.pow_mul 2 8 k
  rw [← places, ← Nat.shiftRight_eq_div_pow]
  rfl

/-- The word stands in the `width` bytes from `offset`, its lowest byte first. -/
def WordAt (data : ByteArray) (offset width : Nat) (word : BitVec (8 * width)) : Prop :=
  ∀ k < width, data[offset + k]? = some (UInt8.ofBitVec (word.extractLsb' (8 * k) 8))

-- A cursor that sees the bytes of a word stands in front of that word.
theorem wordAt_of_sees {width : Nat} {word : BitVec (8 * width)} {c : Cursor}
    (sees : c.Sees (ofNumber width word.toNat)) : WordAt c.data c.pos width word := by
  intro k lt
  rw [sees.getElem?_eq (by rwa [length_ofNumber]), getElem?_ofNumber _ lt, ofBitVec_extractLsb']

-- What stands in a part of the data stands in the data.
theorem WordAt.of_part {part : ByteArray} {offset width : Nat} {word : BitVec (8 * width)}
    (stands : WordAt part offset width word) (fits : offset + width ≤ part.size) {c : Cursor}
    (sees : c.Sees part.data.toList) : WordAt c.data (c.pos + offset) width word := by
  intro k lt
  have inside : offset + k < part.data.toList.length := by
    rw [length_toList]
    omega
  rw [Nat.add_assoc, sees.getElem?_eq inside, ← getElem?_eq_toList]
  exact stands k lt

/-! ## 3. Numbers as words -/

/-- The number in the `width` bytes from an offset is the word that stands there. -/
theorem wordAt_number {data : ByteArray} {offset width : Nat} (fits : offset + width ≤ data.size) :
    WordAt data offset width (BitVec.ofNat (8 * width) (number data offset width)) := by
  obtain ⟨bs, sees, rfl⟩ : ∃ bs, (⟨data, offset⟩ : Cursor).Sees bs ∧ bs.length = width :=
    ⟨_, Cursor.sees_take fits⟩
  have ⟨_, more, eq⟩ := sees
  have lt : value bs < 2 ^ (8 * bs.length) := by
    rw [Nat.pow_mul]
    exact value_lt bs
  rw [number_eq_value data offset bs more eq]
  apply wordAt_of_sees (c := ⟨data, offset⟩)
  rw [BitVec.toNat_ofNat, Nat.mod_eq_of_lt lt, ofNumber_value]
  exact sees

end Bytes

/-- The two's-complement reading of a number is that of the word it fills. -/
theorem twosComplement_eq_toInt {bits n : Nat} (lt : n < 2 ^ bits) :
    twosComplement bits n = (BitVec.ofNat bits n).toInt := by
  rw [BitVec.toInt_eq_toNat_cond, BitVec.toNat_ofNat, Nat.mod_eq_of_lt lt]
  unfold twosComplement
  cases bits with
  | zero =>
    have zero : n = 0 := Nat.lt_one_iff.mp lt
    subst zero
    rfl
  | succ bits =>
    have half : n < 2 ^ bits ↔ 2 * n < 2 ^ (bits + 1) := by
      rw [Nat.pow_succ]
      omega
    rw [Nat.add_sub_cancel]
    simp only [half]

namespace Bytes

variable {data : ByteArray} {offset : Nat}

-- A signed word is read as it stands.
theorem wordAt_i32 (fits : offset + 4 ≤ data.size) :
    WordAt data offset 4 (i32 data offset).toBitVec := by
  have lt : number data offset 4 < 2 ^ 32 := number_lt data offset 4
  unfold i32
  rw [twosComplement_eq_toInt lt, Int32.toBitVec_ofInt, BitVec.ofInt_toInt]
  exact wordAt_number fits

-- A signed word is the one that its bytes spell.
theorem wordAt_of_sees_signed {z : Int32} {c : Cursor} (sees : c.Sees (ofSigned 4 z.toInt)) :
    WordAt c.data c.pos 4 z.toBitVec := by
  have word : z.toBitVec = BitVec.ofInt 32 z.toInt := BitVec.ofInt_toInt.symm
  apply wordAt_of_sees
  rw [word, BitVec.toNat_ofInt]
  exact sees

end Bytes

end DalvikCode
