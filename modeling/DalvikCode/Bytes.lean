import DalvikCode.Error

/-!
# Bytes

Fixed-width reads at an offset of a byte array.  Numbers are little-endian, and ends of ranges are
compared exactly, so a read succeeds if and only if its whole range is present.
-/

namespace DalvikCode

-- other libraries have powers and an equality of byte arrays of their own, which would take the
-- place of these where both are imported
@[default_instance high]
instance intPow : Pow Int Nat := instPowNat

@[default_instance high]
instance natPow : Pow Nat Nat := instPowNat

instance decidableEqByteArray : DecidableEq ByteArray := ByteArray.instDecidableEq

/-- The two's-complement reading of a number below `2 ^ bits`. -/
def twosComplement (bits n : Nat) : Int :=
  if n < 2 ^ (bits - 1) then n else (n : Int) - (2 ^ bits : Nat)

theorem twosComplement_lt {bits n : Nat} (h : n < 2 ^ bits) :
    twosComplement bits n < (2 ^ (bits - 1) : Nat) := by
  have pos := Nat.two_pow_pos (bits - 1)
  unfold twosComplement
  split <;> omega

theorem le_twosComplement {bits n : Nat} (pos : 0 < bits) :
    -(2 ^ (bits - 1) : Nat) ≤ twosComplement bits n := by
  have double : 2 ^ bits = 2 * 2 ^ (bits - 1) := by
    rw [← Nat.pow_succ', Nat.succ_eq_add_one, Nat.sub_add_cancel pos]
  unfold twosComplement
  split <;> omega

/-- An offset is a 64-bit word; one that does not fit lies outside every image. -/
def checkedOffset (offset : Nat) : Except DecodeError Nat :=
  if offset < 2 ^ 64 then .ok offset else .error .outOfBounds

namespace Bytes

/-! ## 1. Little-endian numbers -/

/-- The `width` bytes from `offset` as a number, least significant byte first; bytes past the end
count as zero. -/
def number (data : ByteArray) (offset : Nat) : Nat → Nat
  | 0 => 0
  | width + 1 => (data[offset]?.getD 0).toNat + 256 * number data (offset + 1) width

theorem number_lt (data : ByteArray) (offset width : Nat) :
    number data offset width < 256 ^ width := by
  induction width generalizing offset with
  | zero => simp only [number, Nat.pow_zero, Nat.zero_lt_one]
  | succ width ih =>
    have rest := ih (offset + 1)
    have first := (data[offset]?.getD 0).toNat_lt
    rw [number, Nat.pow_succ]
    omega

/-- The `width` low bytes of `n`, least significant byte first. -/
def ofNumber : Nat → Nat → List UInt8
  | 0, _ => []
  | width + 1, n => UInt8.ofNat n :: ofNumber width (n / 256)

@[simp] theorem length_ofNumber (width n : Nat) : (ofNumber width n).length = width := by
  induction width generalizing n with
  | zero => rfl
  | succ width ih => rw [ofNumber, List.length_cons, ih]

/-- The `width` low bytes of the two's-complement form of `z`, least significant byte first. -/
def ofSigned (width : Nat) (z : Int) : List UInt8 :=
  ofNumber width (z % (256 ^ width : Nat)).toNat

@[simp] theorem length_ofSigned (width : Nat) (z : Int) : (ofSigned width z).length = width :=
  length_ofNumber width _

/-! ## 2. Checked reads -/

/-- The number in the `width` bytes from `offset`, all of which have to be present. -/
def numberAt (data : ByteArray) (offset width : Nat) : Except DecodeError Nat :=
  if offset + width ≤ data.size then .ok (number data offset width) else .error .outOfBounds

/-- The `length` bytes from `offset`, all of which have to be present. -/
def slice (data : ByteArray) (offset length : Nat) : Except DecodeError ByteArray :=
  if offset + length ≤ data.size then .ok (data.extract offset (offset + length))
  else .error .outOfBounds

/-- The 16-bit word at `offset`. -/
def u16At (data : ByteArray) (offset : Nat) : Except DecodeError UInt16 :=
  UInt16.ofNat <$> numberAt data offset 2

/-- The 32-bit word at `offset`. -/
def u32At (data : ByteArray) (offset : Nat) : Except DecodeError UInt32 :=
  UInt32.ofNat <$> numberAt data offset 4

/-- The 32-bit word at `offset`, which has to fit 31 bits. -/
def smallAt (data : ByteArray) (offset : Nat) : Except DecodeError UInt32 := do
  let n ← numberAt data offset 4
  if n < 2 ^ 31 then return UInt32.ofNat n else throw (.malformed (.smallFieldOutOfRange offset))

/-- The signed 32-bit word at `offset`; bytes past the end count as zero. -/
def i32 (data : ByteArray) (offset : Nat) : Int32 :=
  Int32.ofInt (twosComplement 32 (number data offset 4))

end Bytes

/-! ## 3. The integer types of the format -/

/-- The fixed-width integer types. -/
inductive Scalar where
  | u8 | i8 | u16 | i16 | u32 | i32 | u64 | i64
  deriving DecidableEq, Repr, Inhabited

namespace Scalar

/-- Width in bytes. -/
def width : Scalar → Nat
  | u8 | i8 => 1
  | u16 | i16 => 2
  | u32 | i32 => 4
  | u64 | i64 => 8

/-- Whether the type is read in two's complement. -/
def isSigned : Scalar → Bool
  | u8 | u16 | u32 | u64 => false
  | i8 | i16 | i32 | i64 => true

/-- The integer that a number of the type's width stands for. -/
def value (s : Scalar) (n : Nat) : Int :=
  if s.isSigned then twosComplement (8 * s.width) n else n

/-- Reads a value at `offset` and returns it with the offset behind it; a failing read leaves the
offset as it was. -/
def readAt (s : Scalar) (data : ByteArray) (offset : Nat) : Except DecodeError Int × Nat :=
  match Bytes.numberAt data offset s.width with
  | .ok n => (.ok (s.value n), offset + s.width)
  | .error e => (.error e, offset)

end Scalar

end DalvikCode
