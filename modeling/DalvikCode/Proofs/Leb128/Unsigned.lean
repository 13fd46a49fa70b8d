import DalvikCode.Proofs.Leb128.Groups
import DalvikCode.Proofs.Leb128.Words

/-!
# Reading unsigned LEB128 numbers

Groups that fit a word are read, however many of them are needless; five groups that do not fit it
are refused behind the fifth; and where the data ends inside of the groups, all that is left is
read.  One of these three is the case under every cursor.
-/

namespace DalvikCode.Leb128

open Reader

/-! ## 1. Groups and words -/

/-- A number whose groups fit a word: a fifth byte is the last one and has four bits at most. -/
structure Bounded (bs : List UInt8) : Prop where
  encoding : IsEncoding bs
  length_le : bs.length ≤ 5
  fifth_le : ∀ b ∈ bs[4]?, b.toNat ≤ 0x0f

/-- Four groups that continue, and a fifth byte of more than four bits. -/
def Overflows (bs : List UInt8) : Prop :=
  ∃ four fifth, bs = four ++ [fifth] ∧ four.length = 4 ∧ Unfinished four ∧ 0x0f < fifth.toNat

-- Four groups have 28 bits, so the fifth byte decides whether a number fits a word.
theorem bounded_iff {bs : List UInt8} :
    Bounded bs ↔ IsEncoding bs ∧ bs.length ≤ 5 ∧ unsignedValue bs < 2 ^ 32 := by
  have fits (encoding : IsEncoding bs) (length_le : bs.length ≤ 5) :
      (∀ b ∈ bs[4]?, b.toNat ≤ 0x0f) ↔ unsignedValue bs < 2 ^ 32 := by
    rcases Nat.lt_or_eq_of_le length_le with lt | eq
    · have small : unsignedValue bs < 2 ^ 32 :=
        calc unsignedValue bs < 2 ^ (7 * bs.length) := unsignedValue_lt bs
          _ ≤ 2 ^ 32 := Nat.pow_le_pow_right (by decide) (by omega)
      exact iff_of_true (forall_fifth_of_lt lt) small
    · obtain ⟨four, fifth, rfl, length⟩ := exists_four eq
      have ends := (isEncoding_concat.mp encoding).2
      have low := unsignedValue_lt four
      rw [length] at low
      rw [forall_fifth_iff length, unsignedValue_append, length, unsignedValue_singleton ends]
      omega
  constructor
  · rintro ⟨encoding, length_le, fifth_le⟩
    exact ⟨encoding, length_le, (fits encoding length_le).mp fifth_le⟩
  · rintro ⟨encoding, length_le, small⟩
    exact ⟨encoding, length_le, (fits encoding length_le).mpr small⟩

theorem bounded_iff_exists {bs : List UInt8} : Bounded bs ↔ ∃ n : UInt32, Unsigned n.toNat bs := by
  rw [bounded_iff]
  constructor
  · rintro ⟨encoding, length_le, small⟩
    exact ⟨UInt32.ofNat (unsignedValue bs), encoding, length_le,
      (UInt32.toNat_ofNat_of_lt' small).symm⟩
  · rintro ⟨n, encoding, length_le, value⟩
    exact ⟨encoding, length_le, value ▸ n.toNat_lt⟩

/-! ## 2. The three outcomes -/

/-- Under a cursor stands a number that fits a word, or one that does not, or the data ends inside
of it. -/
theorem bounded_or_overflows {c : Cursor} (within : c.pos ≤ c.data.size) :
    (∃ bs, c.Sees bs ∧ Bounded bs) ∨ (∃ bs, c.Sees bs ∧ Overflows bs) ∨
      (Unfinished c.rest ∧ c.rest.length < 5) := by
  rcases groups_under 5 within with ⟨bs, sees, encoding, le⟩ | ⟨bs, sees, unfinished, length⟩ | few
  · rcases Nat.lt_or_eq_of_le le with lt | eq
    · exact .inl ⟨bs, sees, encoding, le, forall_fifth_of_lt lt⟩
    · obtain ⟨four, fifth, rfl, length⟩ := exists_four eq
      have unfinished := (isEncoding_concat.mp encoding).1
      by_cases fifth_le : fifth.toNat ≤ 0x0f
      · exact .inl ⟨_, sees, encoding, le, (forall_fifth_iff length).mpr fifth_le⟩
      · exact .inr (.inl ⟨_, sees, four, fifth, rfl, length, unfinished, Nat.not_le.mp fifth_le⟩)
  · obtain ⟨four, fifth, rfl, four_length⟩ := exists_four length
    obtain ⟨unfinished, last⟩ := List.forall_mem_append.mp unfinished
    have continues : 0x80 ≤ fifth.toNat := last fifth List.mem_cons_self
    exact .inr (.inl ⟨_, sees, four, fifth, rfl, four_length, unfinished, by omega⟩)
  · exact .inr (.inr few)

theorem unsigned_of_error {c c' : Cursor} {e : DecodeError}
    (failed : unsignedGroups c.pos 4 c = .error e c') : unsigned c = .error e c' :=
  (bind_of_ok rfl).trans (bind_of_error failed)

theorem unsigned_of_bounded {c : Cursor} {bs : List UInt8} (sees : c.Sees bs)
    (bounded : Bounded bs) :
    ∃ n : UInt32, unsigned c = .ok n (c.advance bs.length) ∧ n.toNat = unsignedValue bs := by
  obtain ⟨n, encodes⟩ := bounded_iff_exists.mp bounded
  exact ⟨n, (parses_unsigned.reads encodes).whole c sees, encodes.2.2.symm⟩

theorem unsigned_of_overflows {c : Cursor} {bs : List UInt8} (sees : c.Sees bs)
    (overflows : Overflows bs) : ∃ what, unsigned c = .error (.malformed what) (c.advance 5) := by
  obtain ⟨four, fifth, rfl, length, unfinished, gt⟩ := overflows
  have refused : ∃ what, ∀ c', c'.Sees [fifth] →
      unsignedGroups c.pos 0 c' = .error (.malformed what) (c'.advance 1) := by
    by_cases continues : 0x80 ≤ fifth.toNat
    · refine ⟨.ulebUnterminated c.pos, fun c' sees => ?_⟩
      rw [unsignedGroups, bind_of_ok (byte_of_sees sees), if_pos continues]
      rfl
    · refine ⟨.ulebOutOfRange c.pos, fun c' sees => ?_⟩
      rw [unsignedGroups, bind_of_ok (byte_of_sees sees), if_neg continues, if_pos gt]
      rfl
  obtain ⟨what, refused⟩ := refused
  have groups := readsGroups_unsignedGroups c.pos
  exact ⟨what, unsigned_of_error (groups.error_at_fifth sees length unfinished refused)⟩

theorem unsigned_of_unfinished {c : Cursor} (within : c.pos ≤ c.data.size)
    (unfinished : Unfinished c.rest) (few : c.rest.length < 5) :
    unsigned c = .error .outOfBounds ⟨c.data, c.data.size⟩ :=
  unsigned_of_error <| (readsGroups_unsignedGroups c.pos).error_at_end within unfinished
    (Nat.le_of_lt_succ few)

theorem unsigned_ok_iff {c : Cursor} (within : c.pos ≤ c.data.size) :
    (∃ n c', unsigned c = .ok n c') ↔ ∃ bs, c.Sees bs ∧ Bounded bs := by
  constructor
  · rintro ⟨n, c', ok⟩
    obtain ⟨bs, encodes, sees, -⟩ := parses_unsigned.accepts within ok
    exact ⟨bs, sees, bounded_iff_exists.mpr ⟨n, encodes⟩⟩
  · rintro ⟨bs, sees, bounded⟩
    obtain ⟨n, ok, -⟩ := unsigned_of_bounded sees bounded
    exact ⟨n, _, ok⟩

theorem unsigned_malformed_iff {c c' : Cursor} (within : c.pos ≤ c.data.size) :
    (∃ what, unsigned c = .error (.malformed what) c') ↔
      (∃ bs, c.Sees bs ∧ Overflows bs) ∧ c' = c.advance 5 := by
  constructor
  · rintro ⟨what, failed⟩
    rcases bounded_or_overflows within with ⟨bs, sees, bounded⟩ | ⟨bs, sees, overflows⟩ |
      ⟨unfinished, few⟩
    · obtain ⟨n, ok, -⟩ := unsigned_of_bounded sees bounded
      cases ok.symm.trans failed
    · obtain ⟨what', failed'⟩ := unsigned_of_overflows sees overflows
      cases failed'.symm.trans failed
      exact ⟨⟨bs, sees, overflows⟩, rfl⟩
    · cases (unsigned_of_unfinished within unfinished few).symm.trans failed
  · rintro ⟨⟨bs, sees, overflows⟩, rfl⟩
    exact unsigned_of_overflows sees overflows

theorem unsigned_of_neither {c : Cursor} (within : c.pos ≤ c.data.size)
    (neither : ∀ bs, c.Sees bs → ¬ Bounded bs ∧ ¬ Overflows bs) :
    unsigned c = .error .outOfBounds ⟨c.data, c.data.size⟩ := by
  rcases bounded_or_overflows within with ⟨bs, sees, bounded⟩ | ⟨bs, sees, overflows⟩ |
    ⟨unfinished, few⟩
  · exact absurd bounded (neither bs sees).1
  · exact absurd overflows (neither bs sees).2
  · exact unsigned_of_unfinished within unfinished few

/-! ## 3. Smaller numbers -/

theorem small_of_ok {c c' : Cursor} {n : UInt32} (ok : unsigned c = .ok n c') :
    small c = if n.toNat < 2 ^ 31 then .ok n c'
      else .error (.malformed (.ulebOutOfRange c.pos)) c' := by
  refine ((bind_of_ok rfl).trans (bind_of_ok ok)).trans ?_
  split <;> rfl

theorem small_of_error {c c' : Cursor} {e : DecodeError} (failed : unsigned c = .error e c') :
    small c = .error e c' :=
  (bind_of_ok rfl).trans (bind_of_error failed)

/-! ## 4. Shortest encodings -/

-- No encoding of a number is shorter than the one that is written.
theorem length_ofUnsigned_le {bs : List UInt8} (encoding : IsEncoding bs) :
    (ofUnsigned (unsignedValue bs)).length ≤ bs.length := by
  obtain ⟨k, length⟩ := Nat.exists_eq_add_one.mpr encoding.length_pos
  have lt := unsignedValue_lt bs
  rw [length] at lt ⊢
  exact (groups_ofUnsigned k _ lt).2.1

theorem unsigned_ofUInt32 (n : UInt32) : Unsigned n.toNat (ofUInt32 n) := by
  rw [ofUInt32_eq]
  exact unsigned_ofUnsigned n.toNat_lt

theorem index_ofUInt32 {n : UInt32} (small : n.toNat + 1 < 2 ^ 32) :
    Index (some n) (ofUInt32 (n + 1)) := by
  have next : (n + 1).toNat = n.toNat + 1 := by
    rw [UInt32.toNat_add]
    exact Nat.mod_eq_of_lt small
  have encodes := unsigned_ofUInt32 (n + 1)
  rw [next] at encodes
  exact ⟨small, encodes⟩

/-- Unsigned numbers are read exactly.  Which of the three outcomes there is, and where the cursor
stands then, is told by the bytes; groups that fit a word are read as the sum of their places.  So
every word is read back out of its shortest encoding, a smaller number as far as it is one, and an
index as the word that is one higher. -/
theorem unsigned_exact {c : Cursor} (within : c.pos ≤ c.data.size) :
    ((∃ n c', unsigned c = .ok n c') ↔ ∃ bs, c.Sees bs ∧ Bounded bs) ∧
    (∀ bs, c.Sees bs → Bounded bs → ∃ n : UInt32, unsigned c = .ok n (c.advance bs.length) ∧
      n.toNat = ∑ i : Fin bs.length, (bs.get i).toNat % 0x80 * 2 ^ (7 * i.val)) ∧
    (∀ c', (∃ what, unsigned c = .error (.malformed what) c') ↔
      (∃ bs, c.Sees bs ∧ Overflows bs) ∧ c' = c.advance 5) ∧
    ((∀ bs, c.Sees bs → ¬ Bounded bs ∧ ¬ Overflows bs) →
      unsigned c = .error .outOfBounds ⟨c.data, c.data.size⟩) ∧
    (∀ n c', unsigned c = .ok n c' → small c = if n.toNat < 2 ^ 31 then .ok n c'
      else .error (.malformed (.ulebOutOfRange c.pos)) c') ∧
    (∀ e c', unsigned c = .error e c' → small c = .error e c') ∧
    ∀ pre post : ByteArray,
      let place (bs : List UInt8) : Cursor := ⟨pre ++ bs.toByteArray ++ post, pre.size⟩
      let behind (bs : List UInt8) : Cursor := (place bs).advance bs.length
      (∀ n, let bs := ofUInt32 n
        unsigned (place bs) = .ok n (behind bs) ∧
          ∀ xs, IsEncoding xs → unsignedValue xs = n.toNat → bs.length ≤ xs.length) ∧
      (∀ n : UInt32, n.toNat + 1 < 2 ^ 32 → let bs := ofUInt32 (n + 1)
        index? (place bs) = .ok (some n) (behind bs)) ∧
      let bs := ofUInt32 0
      index? (place bs) = .ok none (behind bs) := by
  refine ⟨unsigned_ok_iff within, fun bs sees bounded => ?_,
    fun c' => unsigned_malformed_iff within, unsigned_of_neither within,
    fun n c' => small_of_ok, fun e c' => small_of_error,
    fun pre post => ⟨fun n => ⟨?_, fun xs encoding value => ?_⟩, fun n small => ?_, ?_⟩⟩
  · rw [← unsignedValue_eq_sum]
    exact unsigned_of_bounded sees bounded
  · exact (parses_unsigned.reads (unsigned_ofUInt32 n)).whole _ (Cursor.sees_behind pre post _)
  · rw [ofUInt32_eq, ← value]
    exact length_ofUnsigned_le encoding
  · exact (parses_index?.reads (index_ofUInt32 small)).whole _ (Cursor.sees_behind pre post _)
  · have encodes : Index none (ofUInt32 0) := unsigned_ofUInt32 0
    exact (parses_index?.reads encodes).whole _ (Cursor.sees_behind pre post _)

-- Behind one byte there are three groups, of which the last is needless, and then five groups of
-- which the last has a fifth bit.
theorem unsigned_exact_of_needless_and_overflowing :
    let data : ByteArray := ⟨#[0xff, 0x85, 0x81, 0x00, 0xff, 0xff, 0xff, 0xff, 0x10, 0xff]⟩
    (∃ n : UInt32, unsigned ⟨data, 1⟩ = .ok n ⟨data, 4⟩ ∧ n.toNat = 0x85) ∧
      (∃ what, unsigned ⟨data, 4⟩ = .error (.malformed what) ⟨data, 9⟩) ∧
      unsigned ⟨data, 9⟩ = .error .outOfBounds ⟨data, 10⟩ := by
  intro data
  have needless : (⟨data, 1⟩ : Cursor).Sees [0x85, 0x81, 0x00] := ⟨by decide, _, rfl⟩
  have overflowing : (⟨data, 4⟩ : Cursor).Sees [0xff, 0xff, 0xff, 0xff, 0x10] :=
    ⟨by decide, _, rfl⟩
  have bounded : Bounded [0x85, 0x81, 0x00] := ⟨by decide, by decide, nofun⟩
  have overflows : Overflows [0xff, 0xff, 0xff, 0xff, 0x10] :=
    ⟨[0xff, 0xff, 0xff, 0xff], 0x10, rfl, rfl, by decide, by decide⟩
  obtain ⟨-, read, -⟩ := unsigned_exact needless.pos_le
  obtain ⟨-, -, refused, -⟩ := unsigned_exact overflowing.pos_le
  obtain ⟨n, ok, value⟩ := read _ needless bounded
  exact ⟨⟨n, ok, value.trans (by decide)⟩,
    (refused ⟨data, 9⟩).mpr ⟨⟨_, overflowing, overflows⟩, rfl⟩, rfl⟩

end DalvikCode.Leb128
