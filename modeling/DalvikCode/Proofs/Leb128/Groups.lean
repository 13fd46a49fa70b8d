import Mathlib
import DalvikCode.Proofs.Leb128

/-!
# The groups under a cursor

The bytes from a cursor on begin with the groups of a number, or with more groups than a number may
have, or they end before the last group.  Both readers go on behind a byte that continues, so where
they fail is settled by the groups that they have passed.
-/

namespace DalvikCode.Leb128

open Reader

/-! ## 1. Values -/

/-- The groups of an unsigned number count by their places. -/
theorem unsignedValue_eq_sum (bs : List UInt8) :
    unsignedValue bs = ∑ i : Fin bs.length, (bs.get i).toNat % 0x80 * 2 ^ (7 * i.val) := by
  induction bs with
  | nil => rfl
  | cons b bs ih =>
    have place (i : Fin bs.length) :
        (bs.get i).toNat % 0x80 * 2 ^ (7 * (i.val + 1)) =
          0x80 * ((bs.get i).toNat % 0x80 * 2 ^ (7 * i.val)) := by
      rw [Nat.mul_succ, Nat.pow_add, Nat.mul_left_comm 0x80, Nat.mul_comm 0x80]
    calc unsignedValue (b :: bs)
      _ = b.toNat % 0x80 * 2 ^ (7 * 0) +
          ∑ i : Fin bs.length, (bs.get i).toNat % 0x80 * 2 ^ (7 * (i.val + 1)) := by
        simp only [unsignedValue, ih, place, Finset.mul_sum, Nat.mul_zero, Nat.pow_zero,
          Nat.mul_one]
      _ = ∑ i : Fin (b :: bs).length, ((b :: bs).get i).toNat % 0x80 * 2 ^ (7 * i.val) :=
        (Fin.sum_univ_succ fun i : Fin (bs.length + 1) =>
          ((b :: bs).get i).toNat % 0x80 * 2 ^ (7 * i.val)).symm

theorem unsignedValue_lt (bs : List UInt8) : unsignedValue bs < 2 ^ (7 * bs.length) := by
  induction bs with
  | nil => decide
  | cons b bs ih =>
    have power : 2 ^ (7 * (bs.length + 1)) = 0x80 * 2 ^ (7 * bs.length) := by
      rw [Nat.mul_succ, Nat.pow_add, Nat.mul_comm]
    rw [unsignedValue, List.length_cons, power]
    omega

theorem unsignedValue_append (xs ys : List UInt8) :
    unsignedValue (xs ++ ys) = unsignedValue xs + 2 ^ (7 * xs.length) * unsignedValue ys := by
  induction xs with
  | nil => simp [unsignedValue]
  | cons x xs ih =>
    rw [List.cons_append, unsignedValue, unsignedValue, ih, List.length_cons, Nat.mul_succ,
      Nat.pow_add]
    ring

-- A signed number of `k + 1` groups has `7 * k + 6` bits besides its sign.
theorem signedValue_bounds {bs : List UInt8} {k : Nat} (length : bs.length = k + 1) :
    -(2 ^ (7 * k + 6) : Nat) ≤ signedValue bs ∧ signedValue bs < (2 ^ (7 * k + 6) : Nat) := by
  induction bs generalizing k with
  | nil => cases length
  | cons b bs ih =>
    have group : -0x40 ≤ lastGroup b.toNat ∧ lastGroup b.toNat < 0x40 := by
      have lt : b.toNat % 0x80 < 2 ^ 7 := Nat.mod_lt _ (by decide)
      exact ⟨le_twosComplement (by decide), twosComplement_lt lt⟩
    cases k with
    | zero =>
      obtain rfl := List.eq_nil_of_length_eq_zero (Nat.succ.inj length)
      rw [signedValue_singleton]
      exact group
    | succ k =>
      have behind := ih (Nat.succ.inj length)
      have power : (2 ^ (7 * (k + 1) + 6) : Nat) = 0x80 * 2 ^ (7 * k + 6) := by
        rw [Nat.mul_succ, Nat.add_right_comm, Nat.pow_add, Nat.mul_comm]
      rw [signedValue_cons (List.ne_nil_of_length_eq_add_one (Nat.succ.inj length)), power]
      omega

-- The last group of a signed number brings the sign.
theorem signedValue_concat (bs : List UInt8) (b : UInt8) :
    signedValue (bs ++ [b]) =
      unsignedValue bs + (2 ^ (7 * bs.length) : Nat) * lastGroup b.toNat := by
  induction bs with
  | nil => simp [signedValue_singleton, unsignedValue]
  | cons x bs ih =>
    have power : (2 ^ (7 * (bs.length + 1)) : Nat) = 0x80 * 2 ^ (7 * bs.length) := by
      rw [Nat.mul_succ, Nat.pow_add, Nat.mul_comm]
    rw [List.cons_append, signedValue_cons (by simp), ih, unsignedValue, List.length_cons, power]
    push_cast
    ring

-- Where the last byte has bit 6, a signed number is that much less than the unsigned one.
theorem signedValue_eq_sum (bs : List UInt8) :
    signedValue bs = (∑ i : Fin bs.length, (bs.get i).toNat % 0x80 * 2 ^ (7 * i.val) : Nat) -
      (if bs.getLast?.any (·.toNat.testBit 6) then 2 ^ (7 * bs.length) else 0 : Nat) := by
  have sign (b : UInt8) : decide (0x40 ≤ b.toNat % 0x80) = b.toNat.testBit 6 := by
    rw [Nat.testBit_eq_decide_div_mod_eq, decide_eq_decide]
    omega
  simp only [signedValue, sign, unsignedValue_eq_sum]

/-! ## 2. Unfinished numbers -/

/-- Every byte says that another group follows. -/
def Unfinished (bs : List UInt8) : Prop := ∀ b ∈ bs, Continues b

instance (bs : List UInt8) : Decidable (Unfinished bs) := List.decidableBAll Continues bs

theorem unfinished_cons {b : UInt8} {bs : List UInt8} :
    Unfinished (b :: bs) ↔ Continues b ∧ Unfinished bs :=
  List.forall_mem_cons

theorem isEncoding_concat {bs : List UInt8} {b : UInt8} :
    IsEncoding (bs ++ [b]) ↔ Unfinished bs ∧ b.toNat < 0x80 := by
  induction bs with
  | nil => simp [Unfinished, isEncoding_singleton]
  | cons x bs ih =>
    rw [List.cons_append, isEncoding_cons (by simp), ih, unfinished_cons, and_assoc]
    rfl

theorem exists_four {bs : List UInt8} (length : bs.length = 5) :
    ∃ four fifth, bs = four ++ [fifth] ∧ four.length = 4 := by
  obtain rfl | ⟨four, fifth, rfl⟩ := List.eq_nil_or_concat' bs
  · cases length
  · rw [List.length_append] at length
    exact ⟨four, fifth, rfl, Nat.succ.inj length⟩

section
variable {P : UInt8 → Prop}

theorem forall_fifth_iff {four : List UInt8} {fifth : UInt8} (length : four.length = 4) :
    (∀ b ∈ (four ++ [fifth])[4]?, P b) ↔ P fifth := by
  have last : (four ++ [fifth])[4]? = some fifth := by
    rw [← length]
    exact List.getElem?_concat_length
  simp only [last, Option.mem_some_iff, forall_eq']

theorem forall_fifth_of_lt {bs : List UInt8} (lt : bs.length < 5) : ∀ b ∈ bs[4]?, P b := by
  rw [List.getElem?_eq_none (Nat.le_of_lt_succ lt)]
  nofun

end

-- Bytes without a last group among the first `k` are `k` unfinished ones, or are fewer.
theorem encoding_or_unfinished (k : Nat) (bs : List UInt8) :
    (∃ xs ys, bs = xs ++ ys ∧ IsEncoding xs ∧ xs.length ≤ k) ∨
      (∃ xs ys, bs = xs ++ ys ∧ Unfinished xs ∧ xs.length = k) ∨
      (Unfinished bs ∧ bs.length < k) := by
  induction k generalizing bs with
  | zero => exact .inr (.inl ⟨[], bs, rfl, nofun, rfl⟩)
  | succ k ih =>
    cases bs with
    | nil => exact .inr (.inr ⟨nofun, Nat.succ_pos k⟩)
    | cons b bs =>
      by_cases continues : Continues b
      · rcases ih bs with ⟨xs, ys, rfl, encoding, le⟩ | ⟨xs, ys, rfl, unfinished, length⟩ |
          ⟨unfinished, lt⟩
        · exact .inl ⟨b :: xs, ys, rfl, (isEncoding_cons encoding.ne_nil).mpr ⟨continues, encoding⟩,
            Nat.succ_le_succ le⟩
        · exact .inr (.inl ⟨b :: xs, ys, rfl, unfinished_cons.mpr ⟨continues, unfinished⟩,
            congrArg (· + 1) length⟩)
        · exact .inr (.inr ⟨unfinished_cons.mpr ⟨continues, unfinished⟩,
            Nat.succ_lt_succ lt⟩)
      · exact .inl ⟨[b], bs, rfl, continues, Nat.succ_le_succ (Nat.zero_le k)⟩

/-- Under a cursor stands a number of at most `k` groups, or `k` unfinished groups, or the data ends
before it has as many. -/
theorem groups_under (k : Nat) {c : Cursor} (within : c.pos ≤ c.data.size) :
    (∃ bs, c.Sees bs ∧ IsEncoding bs ∧ bs.length ≤ k) ∨
      (∃ bs, c.Sees bs ∧ Unfinished bs ∧ bs.length = k) ∨
      (Unfinished c.rest ∧ c.rest.length < k) := by
  rcases encoding_or_unfinished k c.rest with
    ⟨xs, ys, rest_eq, encoding, le⟩ | ⟨xs, ys, rest_eq, unfinished, length⟩ | few
  · exact .inl ⟨xs, ⟨within, ys, rest_eq⟩, encoding, le⟩
  · exact .inr (.inl ⟨xs, ⟨within, ys, rest_eq⟩, unfinished, length⟩)
  · exact .inr (.inr few)

/-! ## 3. Failures -/

theorem byte_of_sees {c : Cursor} {b : UInt8} (sees : c.Sees [b]) :
    byte c = .ok b.toNat (c.advance 1) :=
  (TakesAtOnce.number 1).whole c [b] rfl sees

/-- A reader that may find `k` groups behind the next one goes on behind a byte that continues, and
runs out of bytes at the end of the data. -/
structure ReadsGroups {α : Type} (r : Nat → Reader α) : Prop where
  goes_on : ∀ {k c b e c'}, c.Sees [b] → Continues b → r k (c.advance 1) = .error e c' →
    r (k + 1) c = .error e c'
  runs_out : ∀ {k c}, c.data.size ≤ c.pos → r k c = .error .outOfBounds c

theorem readsGroups_unsignedGroups (start : Nat) : ReadsGroups (unsignedGroups start) where
  goes_on sees continues failed := by
    rw [unsignedGroups, bind_of_ok (byte_of_sees sees), if_neg (Nat.not_lt.mpr continues)]
    exact bind_of_error failed
  runs_out {k c} ended := by
    cases k <;> exact bind_of_error (byte_of_le ended)

theorem readsGroups_signedGroups (start : Nat) : ReadsGroups (signedGroups start) where
  goes_on sees continues failed := by
    rw [signedGroups, bind_of_ok (byte_of_sees sees), if_neg (Nat.not_lt.mpr continues)]
    exact bind_of_error failed
  runs_out {k c} ended := by
    cases k <;> exact bind_of_error (byte_of_le ended)

namespace ReadsGroups

variable {α : Type} {r : Nat → Reader α} (groups : ReadsGroups r)
include groups

-- A failure behind unfinished groups is a failure in front of them.
theorem error_behind {bs : List UInt8} (unfinished : Unfinished bs) {k : Nat} {c c' : Cursor}
    {e : DecodeError} (sees : c.Sees bs) (failed : r k (c.advance bs.length) = .error e c') :
    r (k + bs.length) c = .error e c' := by
  induction bs generalizing c with
  | nil => exact failed
  | cons b bs ih =>
    have both : c.Sees ([b] ++ bs) := sees
    obtain ⟨first, behind⟩ := Cursor.sees_append.mp both
    obtain ⟨continues, unfinished⟩ := unfinished_cons.mp unfinished
    rw [List.length_cons, Nat.add_comm, ← Cursor.advance_advance] at failed
    exact groups.goes_on first continues (ih unfinished behind failed)

-- What is wrong with a fifth byte is found behind it.
theorem error_at_fifth {four : List UInt8} {fifth : UInt8} {c : Cursor} {e : DecodeError}
    (sees : c.Sees (four ++ [fifth])) (length : four.length = 4) (unfinished : Unfinished four)
    (refused : ∀ c, c.Sees [fifth] → r 0 c = .error e (c.advance 1)) :
    r 4 c = .error e (c.advance 5) := by
  obtain ⟨sees_four, sees_fifth⟩ := Cursor.sees_append.mp sees
  have failed := groups.error_behind unfinished sees_four (refused _ sees_fifth)
  rwa [Cursor.advance_advance, length] at failed

-- Groups that the data does not finish are all read, and no more.
theorem error_at_end {k : Nat} {c : Cursor} (within : c.pos ≤ c.data.size)
    (unfinished : Unfinished c.rest) (few : c.rest.length ≤ k) :
    r k c = .error .outOfBounds ⟨c.data, c.data.size⟩ := by
  have stop_eq : c.advance c.rest.length = ⟨c.data, c.data.size⟩ := by
    rw [Cursor.advance, Cursor.length_rest, Nat.add_sub_cancel' within]
  have failed : r (k - c.rest.length) (c.advance c.rest.length) =
      .error .outOfBounds ⟨c.data, c.data.size⟩ := by
    rw [stop_eq]
    exact groups.runs_out (Nat.le_refl _)
  have sees : c.Sees c.rest := ⟨within, [], (List.append_nil _).symm⟩
  rw [← Nat.sub_add_cancel few]
  exact groups.error_behind unfinished sees failed

end ReadsGroups

end DalvikCode.Leb128
