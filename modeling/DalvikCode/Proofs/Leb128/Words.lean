import DalvikCode.Proofs.Leb128
import DalvikCode.Proofs.Trapping.Leb128

/-!
# Encodings by shifts

A word is written by masking its lowest group off and shifting it down.  A signed word is shifted
with its sign, until nothing but the sign is left and the last group shows it.  What is written in
this way are the shortest encodings.
-/

namespace DalvikCode.Leb128

/-! ## 1. Groups in bytes -/

-- The high bit of a byte is put in front of its group.
theorem toNat_or_high {b : UInt8} (lt : b.toNat < 0x80) : (b ||| 0x80).toNat = b.toNat + 0x80 := by
  have low : b.toNat < 2 ^ 7 := lt
  rw [UInt8.toNat_or]
  exact Trapping.or_shifted 1 low

theorem and_sign_eq_zero_iff {b : UInt8} (lt : b.toNat < 0x80) :
    b &&& 0x40 = 0 ↔ b.toNat < 0x40 := by
  rw [← UInt8.toNat_inj, UInt8.toNat_and]
  exact Trapping.and_sign_bit_eq_zero_iff lt

-- A byte with a given group is the one that the encodings have.
theorem eq_group {b : UInt8} {n : Nat} (group : b.toNat = n) :
    b = UInt8.ofNat n ∧ (n < 0x80 → b ||| 0x80 = UInt8.ofNat (n + 0x80)) := by
  have small := b.toNat_lt
  constructor
  · rw [← group, UInt8.ofNat_toNat]
  · intro lt
    rw [← group] at lt
    rw [← UInt8.toNat_inj, toNat_or_high lt, group, UInt8.toNat_ofNat']
    omega

/-! ## 2. Unsigned words -/

theorem toNat_shiftRight_seven (n : UInt32) : (n >>> 7).toNat = n.toNat / 0x80 := by
  rw [UInt32.toNat_shiftRight]
  exact Nat.shiftRight_eq_div_pow n.toNat 7

theorem toNat_low_group (n : UInt32) : (n &&& 0x7f).toUInt8.toNat = n.toNat % 0x80 := by
  rw [UInt32.toNat_toUInt8, UInt32.toNat_and]
  change (n.toNat &&& 0x7f) % 256 = _
  rw [Trapping.and_low_bits]
  omega

/-- Writes an unsigned word group by group, until nothing is left of it. -/
def ofUInt32 (n : UInt32) : List UInt8 :=
  if n >>> 7 = 0 then [(n &&& 0x7f).toUInt8]
  else ((n &&& 0x7f).toUInt8 ||| 0x80) :: ofUInt32 (n >>> 7)
  termination_by n.toNat
  decreasing_by
    next more =>
    have rest : (n >>> 7).toNat ≠ 0 := fun zero => more (UInt32.toNat_inj.mp zero)
    rw [toNat_shiftRight_seven] at rest ⊢
    omega

theorem ofUInt32_eq (n : UInt32) : ofUInt32 n = ofUnsigned n.toNat := by
  have group (n : UInt32) := eq_group (toNat_low_group n)
  have last (n : UInt32) : n >>> 7 = 0 ↔ n.toNat < 0x80 := by
    rw [← UInt32.toNat_inj, toNat_shiftRight_seven]
    change _ = 0 ↔ _
    omega
  fun_induction ofUInt32 n with
  | case1 n ends =>
    have lt := (last n).mp ends
    rw [ofUnsigned, if_pos lt, (group n).1, Nat.mod_eq_of_lt lt]
  | case2 n more ih =>
    have lt : n.toNat % 0x80 < 0x80 := Nat.mod_lt _ (by decide)
    rw [ofUnsigned, if_neg fun lt => more ((last n).mpr lt), (group n).2 lt, ih,
      toNat_shiftRight_seven]

/-! ## 3. Signed words -/

theorem toInt_shiftRight_seven (z : Int32) : (z >>> 7).toInt = z.toInt / 0x80 := by
  change (BitVec.sshiftRight' z.toBitVec _).toInt = _
  rw [BitVec.toInt_sshiftRight']
  exact Int.shiftRight_eq_div_pow z.toInt 7

-- The sign of a word does not touch its lowest group.
theorem toNat_low_signed_group (z : Int32) :
    (z &&& 0x7f).toUInt32.toUInt8.toNat = (z.toInt % 0x80).toNat := by
  have low : (z &&& 0x7f).toUInt32.toUInt8.toNat = z.toUInt32.toNat % 0x80 := toNat_low_group _
  have sign : z.toInt = if 2 * z.toUInt32.toNat < 2 ^ 32 then (z.toUInt32.toNat : Int)
      else z.toUInt32.toNat - (2 ^ 32 : Nat) := BitVec.toInt_eq_toNat_cond z.toBitVec
  rw [low]
  split at sign <;> omega

-- Nothing but the sign is left, and bit 6 shows it.
theorem only_sign_iff (z : Int32) :
    z >>> 7 = 0 ∧ (z &&& 0x7f).toUInt32.toUInt8 &&& 0x40 = 0 ∨
      z >>> 7 = -1 ∧ (z &&& 0x7f).toUInt32.toUInt8 &&& 0x40 ≠ 0 ↔
      -0x40 ≤ z.toInt ∧ z.toInt < 0x40 := by
  have group := toNat_low_signed_group z
  have sign := and_sign_eq_zero_iff (b := (z &&& 0x7f).toUInt32.toUInt8) (by omega)
  have zero : (0 : Int32).toInt = 0 := rfl
  have minus_one : (-1 : Int32).toInt = -1 := rfl
  rw [Ne, sign, group, ← Int32.toInt_inj, ← Int32.toInt_inj, toInt_shiftRight_seven, zero,
    minus_one]
  omega

/-- Writes a signed word group by group, until nothing but its sign is left and the last group
shows that sign. -/
def ofInt32 (z : Int32) : List UInt8 :=
  let group := (z &&& 0x7f).toUInt32.toUInt8
  let rest := z >>> 7
  if rest = 0 ∧ group &&& 0x40 = 0 ∨ rest = -1 ∧ group &&& 0x40 ≠ 0 then [group]
  else (group ||| 0x80) :: ofInt32 rest
  termination_by z.toInt.natAbs
  decreasing_by
    next more =>
    rw [only_sign_iff] at more
    rw [toInt_shiftRight_seven]
    omega

theorem ofInt32_eq (z : Int32) : ofInt32 z = ofSigned z.toInt := by
  have group (z : Int32) := eq_group (toNat_low_signed_group z)
  fun_induction ofInt32 z with
  | case1 z group' rest ends =>
    rw [ofSigned, if_pos ((only_sign_iff z).mp ends)]
    exact congrArg (· :: []) (group z).1
  | case2 z group' rest more ih =>
    have lt : (z.toInt % 0x80).toNat < 0x80 := by omega
    rw [ofSigned, if_neg fun only => more ((only_sign_iff z).mpr only), ih]
    rw [← toInt_shiftRight_seven]
    exact congrArg (· :: _) ((group z).2 lt)

end DalvikCode.Leb128
