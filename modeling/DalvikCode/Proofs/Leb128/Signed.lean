import DalvikCode.Proofs.Leb128.Groups
import DalvikCode.Proofs.Leb128.Words

/-!
# Reading signed LEB128 numbers

Every number of at most five groups is read, and of its value the low 32 bits count.  The groups of
a fifth byte reach three bits beyond a word.  Where these are not the sign, the word that is read is
not the number that stands there.
-/

namespace DalvikCode.Leb128

open Reader

/-! ## 1. Numbers and words -/

theorem eq_ofInt_iff {v : Int32} {z : Int} :
    v = Int32.ofInt z ↔ v.toInt ≡ z [ZMOD (2 ^ 32 : Nat)] := by
  rw [eq_comm, Int32.ofInt_eq_iff_bmod_eq_toInt]
  constructor
  · intro eq
    rw [← eq]
    exact Int.bmod_emod
  · intro congruent
    calc z.bmod (2 ^ 32) = (z % (2 ^ 32 : Nat)).bmod (2 ^ 32) := (Int.emod_bmod z _).symm
      _ = (v.toInt % (2 ^ 32 : Nat)).bmod (2 ^ 32) := by rw [congruent]
      _ = v.toInt := (Int.emod_bmod v.toInt _).trans v.toInt_bmod

-- A word of the low bits of a number is the only word that is congruent to it.
theorem eq_ofInt_iff_forall {v : Int32} {z : Int} :
    v = Int32.ofInt z ↔ ∀ w : Int32, w = v ↔ w.toInt ≡ z [ZMOD (2 ^ 32 : Nat)] := by
  constructor
  · rintro rfl w
    exact eq_ofInt_iff
  · exact fun only => eq_ofInt_iff.mpr ((only v).mp rfl)

theorem word_iff {v : Int32} {bs : List UInt8} :
    Word v bs ↔ IsEncoding bs ∧ bs.length ≤ 5 ∧ v = Int32.ofInt (signedValue bs) := by
  constructor
  · rintro ⟨_, ⟨encoding, length_le, rfl⟩, eq⟩
    exact ⟨encoding, length_le, eq⟩
  · rintro ⟨encoding, length_le, eq⟩
    exact ⟨_, ⟨encoding, length_le, rfl⟩, eq⟩

theorem toInt_ofInt_eq_iff {z : Int} :
    (Int32.ofInt z).toInt = z ↔ -(2 ^ 31 : Nat) ≤ z ∧ z < (2 ^ 31 : Nat) := by
  constructor
  · intro eq
    rw [← eq]
    exact ⟨Int32.le_toInt _, Int32.toInt_lt _⟩
  · rintro ⟨low, high⟩
    exact Int32.toInt_ofInt_of_le low high

-- Four groups have 28 bits, so the fifth byte decides whether a number fits a word.
theorem fits_iff {bs : List UInt8} (encoding : IsEncoding bs) (length_le : bs.length ≤ 5) :
    -(2 ^ 31 : Nat) ≤ signedValue bs ∧ signedValue bs < (2 ^ 31 : Nat) ↔
      ∀ b ∈ bs[4]?, b.toNat < 0x08 ∨ 0x78 ≤ b.toNat := by
  rcases Nat.lt_or_eq_of_le length_le with lt | eq
  · obtain ⟨k, length⟩ := Nat.exists_eq_add_one.mpr encoding.length_pos
    have power : 2 ^ (7 * k + 6) ≤ 2 ^ 31 := Nat.pow_le_pow_right (by decide) (by omega)
    obtain ⟨low, high⟩ := signedValue_bounds length
    exact iff_of_true ⟨by omega, by omega⟩ (forall_fifth_of_lt lt)
  · obtain ⟨four, fifth, rfl, length⟩ := exists_four eq
    have ends := (isEncoding_concat.mp encoding).2
    have low := unsignedValue_lt four
    rw [length] at low
    rw [forall_fifth_iff length, signedValue_concat, length, lastGroup, twosComplement,
      Nat.mod_eq_of_lt ends]
    split <;> omega

/-! ## 2. The three outcomes -/

theorem signed_of_error {c c' : Cursor} {e : DecodeError}
    (failed : signedGroups c.pos 4 c = .error e c') : signed c = .error e c' :=
  (bind_of_ok rfl).trans (bind_of_error failed)

theorem signed_of_sees {c : Cursor} {bs : List UInt8} (sees : c.Sees bs)
    (encoding : IsEncoding bs) (length_le : bs.length ≤ 5) :
    signed c = .ok (Int32.ofInt (signedValue bs)) (c.advance bs.length) :=
  (parses_signed.reads (word_iff.mpr ⟨encoding, length_le, rfl⟩)).whole c sees

theorem signed_of_five {c : Cursor} {bs : List UInt8} (sees : c.Sees bs)
    (unfinished : Unfinished bs) (length : bs.length = 5) :
    signed c = .error (.malformed (.slebUnterminated c.pos)) (c.advance 5) := by
  obtain ⟨four, fifth, rfl, four_length⟩ := exists_four length
  obtain ⟨unfinished, last⟩ := List.forall_mem_append.mp unfinished
  have continues : 0x80 ≤ fifth.toNat := last fifth List.mem_cons_self
  have groups := readsGroups_signedGroups c.pos
  refine signed_of_error (groups.error_at_fifth sees four_length unfinished fun c' sees => ?_)
  rw [signedGroups, bind_of_ok (byte_of_sees sees), if_pos continues]
  rfl

theorem signed_of_unfinished {c : Cursor} (within : c.pos ≤ c.data.size)
    (unfinished : Unfinished c.rest) (few : c.rest.length < 5) :
    signed c = .error .outOfBounds ⟨c.data, c.data.size⟩ :=
  signed_of_error <| (readsGroups_signedGroups c.pos).error_at_end within unfinished
    (Nat.le_of_lt_succ few)

section
variable {c : Cursor} (within : c.pos ≤ c.data.size)
include within

theorem signed_ok_iff {v : Int32} {c' : Cursor} :
    signed c = .ok v c' ↔ ∃ bs, c.Sees bs ∧ IsEncoding bs ∧ bs.length ≤ 5 ∧
      c' = c.advance bs.length ∧ v = Int32.ofInt (signedValue bs) := by
  rw [parses_signed.ok_iff within]
  constructor
  · rintro ⟨bs, word, sees, eq⟩
    obtain ⟨encoding, length_le, value⟩ := word_iff.mp word
    exact ⟨bs, sees, encoding, length_le, eq, value⟩
  · rintro ⟨bs, sees, encoding, length_le, eq, value⟩
    exact ⟨bs, word_iff.mpr ⟨encoding, length_le, value⟩, sees, eq⟩

theorem signed_malformed_iff {what : Malformation} {c' : Cursor} :
    signed c = .error (.malformed what) c' ↔
      (∃ bs, c.Sees bs ∧ Unfinished bs ∧ bs.length = 5) ∧
        what = .slebUnterminated c.pos ∧ c' = c.advance 5 := by
  constructor
  · intro failed
    rcases groups_under 5 within with ⟨bs, sees, encoding, le⟩ | ⟨bs, sees, unfinished, length⟩ |
      ⟨unfinished, few⟩
    · cases (signed_of_sees sees encoding le).symm.trans failed
    · cases (signed_of_five sees unfinished length).symm.trans failed
      exact ⟨⟨bs, sees, unfinished, length⟩, rfl, rfl⟩
    · cases (signed_of_unfinished within unfinished few).symm.trans failed
  · rintro ⟨⟨bs, sees, unfinished, length⟩, rfl, rfl⟩
    exact signed_of_five sees unfinished length

theorem signed_outOfBounds_iff {c' : Cursor} :
    signed c = .error .outOfBounds c' ↔
      (Unfinished c.rest ∧ c.rest.length < 5) ∧ c' = ⟨c.data, c.data.size⟩ := by
  constructor
  · intro failed
    rcases groups_under 5 within with ⟨bs, sees, encoding, le⟩ | ⟨bs, sees, unfinished, length⟩ |
      ⟨unfinished, few⟩
    · cases (signed_of_sees sees encoding le).symm.trans failed
    · cases (signed_of_five sees unfinished length).symm.trans failed
    · cases (signed_of_unfinished within unfinished few).symm.trans failed
      exact ⟨⟨unfinished, few⟩, rfl⟩
  · rintro ⟨⟨unfinished, few⟩, rfl⟩
    exact signed_of_unfinished within unfinished few

end

/-! ## 3. Shortest encodings -/

theorem word_ofInt32 (v : Int32) : Word v (ofInt32 v) := by
  rw [ofInt32_eq]
  exact word_ofSigned v

-- No encoding of a number is shorter than the one that is written.
theorem length_ofSigned_le {bs : List UInt8} (encoding : IsEncoding bs) :
    (ofSigned (signedValue bs)).length ≤ bs.length := by
  obtain ⟨k, length⟩ := Nat.exists_eq_add_one.mpr encoding.length_pos
  obtain ⟨low, high⟩ := signedValue_bounds length
  rw [length]
  exact (groups_ofSigned k _ low high).2.1

/-- Signed numbers are read up to the bits of a word.  A word is read back out of its shortest
encoding.  What is read out of other groups is the only word that is congruent to the sum of their
places, the sign of the last one taken off.  Nothing else fails than five bytes that all continue,
and the end of the data inside of the groups. -/
theorem signed_congruent {c : Cursor} (within : c.pos ≤ c.data.size) :
    (∀ pre post : ByteArray, ∀ v : Int32, let bs := ofInt32 v
      let place : Cursor := ⟨pre ++ bs.toByteArray ++ post, pre.size⟩
      signed place = .ok v (place.advance bs.length) ∧
        ∀ xs, IsEncoding xs → signedValue xs = v.toInt → bs.length ≤ xs.length) ∧
    (∀ v c', signed c = .ok v c' ↔ ∃ bs, c.Sees bs ∧ IsEncoding bs ∧ bs.length ≤ 5 ∧
      c' = c.advance bs.length ∧ ∀ w : Int32, w = v ↔
        w.toInt ≡ (∑ i : Fin bs.length, (bs.get i).toNat % 0x80 * 2 ^ (7 * i.val) : Nat) -
          (if bs.getLast?.any (·.toNat.testBit 6) then 2 ^ (7 * bs.length) else 0 : Nat)
            [ZMOD (2 ^ 32 : Nat)]) ∧
    (∀ c', (∃ what, signed c = .error (.malformed what) c') ↔
      (∃ bs, c.Sees bs ∧ Unfinished bs ∧ bs.length = 5) ∧ c' = c.advance 5) ∧
    ∀ c', signed c = .error .outOfBounds c' ↔
      (Unfinished c.rest ∧ c.rest.length < 5) ∧ c' = ⟨c.data, c.data.size⟩ := by
  refine ⟨fun pre post v => ⟨?_, fun xs encoding value => ?_⟩, fun v c' => ?_, fun c' => ?_,
    fun c' => signed_outOfBounds_iff within⟩
  · exact (parses_signed.reads (word_ofInt32 v)).whole _ (Cursor.sees_behind pre post _)
  · rw [ofInt32_eq, ← value]
    exact length_ofSigned_le encoding
  · rw [signed_ok_iff within]
    simp only [eq_ofInt_iff_forall, signedValue_eq_sum]
  · constructor
    · rintro ⟨what, failed⟩
      obtain ⟨five, -, eq⟩ := (signed_malformed_iff within).mp failed
      exact ⟨five, eq⟩
    · rintro ⟨five, eq⟩
      exact ⟨_, (signed_malformed_iff within).mpr ⟨five, rfl, eq⟩⟩

-- A word between two bytes, five bytes that all continue, and one more.
theorem signed_congruent_of_least_word_and_five_bytes :
    signed ⟨⟨#[0xff]⟩ ++ (ofInt32 (-0x80000000)).toByteArray ++ ⟨#[0xff]⟩, 1⟩ = .ok (-0x80000000)
        ⟨⟨#[0xff]⟩ ++ (ofInt32 (-0x80000000)).toByteArray ++ ⟨#[0xff]⟩,
          1 + (ofInt32 (-0x80000000)).length⟩ ∧
      let data : ByteArray := ⟨#[0xff, 0xff, 0xff, 0xff, 0x80, 0x80]⟩
      (∃ what, signed (.start data) = .error (.malformed what) ⟨data, 5⟩) ∧
        signed ⟨data, 5⟩ = .error .outOfBounds ⟨data, 6⟩ := by
  have five : (Cursor.start ⟨#[0xff, 0xff, 0xff, 0xff, 0x80, 0x80]⟩).Sees
    [0xff, 0xff, 0xff, 0xff, 0x80] := ⟨by decide, _, rfl⟩
  have behind : Cursor.pos ⟨⟨#[0xff, 0xff, 0xff, 0xff, 0x80, 0x80]⟩, 5⟩ ≤ 6 := by decide
  obtain ⟨written, -, malformed, -⟩ := signed_congruent five.pos_le
  obtain ⟨-, -, -, ended⟩ := signed_congruent behind
  exact ⟨(written ⟨#[0xff]⟩ ⟨#[0xff]⟩ (-0x80000000)).1,
    (malformed _).mpr ⟨⟨_, five, by decide, rfl⟩, rfl⟩, (ended _).mpr ⟨by decide, rfl⟩⟩

/-! ## 4. Excess bits -/

/-- A number is read as what it stands for if and only if it has less than five groups or the three
excess bits of the fifth one are as the sign below them.  In no other way do excess bits matter:
five groups are never refused for what is in the last one. -/
theorem signed_exact_iff {c : Cursor} (within : c.pos ≤ c.data.size) :
    (∀ v c', signed c = .ok v c' → ∃ bs, c.Sees bs ∧ IsEncoding bs ∧ c' = c.advance bs.length ∧
      (v.toInt = signedValue bs ↔ ∀ b ∈ bs[4]?, b.toNat < 0x08 ∨ 0x78 ≤ b.toNat)) ∧
    ∀ bs, c.Sees bs → IsEncoding bs → bs.length = 5 → ∃ v, signed c = .ok v (c.advance 5) := by
  constructor
  · intro v c' ok
    obtain ⟨bs, sees, encoding, length_le, eq, rfl⟩ := (signed_ok_iff within).mp ok
    exact ⟨bs, sees, encoding, eq, toInt_ofInt_eq_iff.trans (fits_iff encoding length_le)⟩
  · intro bs sees encoding length
    have ok := signed_of_sees sees encoding (Nat.le_of_eq length)
    rw [length] at ok
    exact ⟨_, ok⟩

/-- Five groups of which the last has only a bit beyond a word. -/
def excess : ByteArray := ⟨#[0x80, 0x80, 0x80, 0x80, 0x10]⟩

theorem signed_excess : signed (.start excess) = .ok 0 ⟨excess, 5⟩ := rfl

-- Only the five bytes have been read when the cursor is behind them.
theorem eq_excess {bs : List UInt8} (sees : (Cursor.start excess).Sees bs)
    (eq : (⟨excess, 5⟩ : Cursor) = (Cursor.start excess).advance bs.length) :
    bs = [0x80, 0x80, 0x80, 0x80, 0x10] := by
  obtain ⟨-, more, rest_eq⟩ := sees
  have length : 5 = 0 + bs.length := congrArg Cursor.pos eq
  have whole : [0x80, 0x80, 0x80, 0x80, 0x10] ++ [] = bs ++ more := rest_eq
  exact (List.append_inj_left whole (length.trans (Nat.zero_add _))).symm

theorem signed_exact_iff_of_excess : (Cursor.start excess).pos ≤ excess.size ∧
    signed (.start excess) = .ok 0 ⟨excess, 5⟩ ∧
    (0 : Int32).toInt ≠ signedValue [0x80, 0x80, 0x80, 0x80, 0x10] := by
  have within : (Cursor.start excess).pos ≤ excess.size := by decide
  obtain ⟨bs, sees, -, eq, exact_iff⟩ := (signed_exact_iff within).1 0 ⟨excess, 5⟩ signed_excess
  obtain rfl := eq_excess sees eq
  refine ⟨within, signed_excess, fun same => ?_⟩
  rcases exact_iff.mp same 0x10 rfl with low | high
  · exact absurd low (by decide)
  · exact absurd high (by decide)

-- So it is not true that what is read is always what the groups stand for.
theorem signed_not_exact : ¬ ∀ c v c', c.pos ≤ c.data.size → signed c = .ok v c' →
    ∃ bs, c.Sees bs ∧ c' = c.advance bs.length ∧ v.toInt = signedValue bs := by
  intro exact_always
  obtain ⟨bs, sees, eq, same⟩ :=
    exact_always (.start excess) 0 ⟨excess, 5⟩ (by decide) signed_excess
  obtain rfl := eq_excess sees eq
  exact absurd same (by decide)

end DalvikCode.Leb128
