import DalvikCode.Leb128.Encoding
import DalvikCode.Proofs.Grammar

/-!
# LEB128 numbers, written and read

The readers accept the encodings of at most five groups, of any length that holds the number, and
the shortest encoding of a number is one of them.  All goes by the groups that a reader may still
find: with `k` groups behind the next one, an unsigned number of `7 * k + 4` bits can be read, and a
signed one of `7 * k + 7` bits.
-/

namespace DalvikCode.Leb128

open Reader

/-! ## 1. Groups -/

theorem isEncoding_singleton {b : UInt8} : IsEncoding [b] ↔ b.toNat < 0x80 := by
  rw [IsEncoding, Continues, Nat.not_le]

theorem isEncoding_cons {b : UInt8} {bs : List UInt8} (h : bs ≠ []) :
    IsEncoding (b :: bs) ↔ 0x80 ≤ b.toNat ∧ IsEncoding bs := by
  match bs, h with
  | _ :: _, _ => rfl

theorem IsEncoding.ne_nil {bs : List UInt8} (h : IsEncoding bs) : bs ≠ [] := by
  rintro rfl
  exact h

theorem IsEncoding.length_pos {bs : List UInt8} (h : IsEncoding bs) : 0 < bs.length :=
  List.length_pos_iff.mpr h.ne_nil

theorem unsignedValue_singleton {b : UInt8} (lt : b.toNat < 0x80) :
    unsignedValue [b] = b.toNat := by
  rw [unsignedValue, unsignedValue]
  omega

theorem signedValue_singleton {b : UInt8} : signedValue [b] = lastGroup b.toNat := by
  simp only [signedValue, unsignedValue, List.getLast?_singleton, Option.any_some,
    decide_eq_true_eq, List.length_singleton, lastGroup, twosComplement]
  split <;> split <;> omega

theorem signedValue_cons {b : UInt8} {bs : List UInt8} (h : bs ≠ []) :
    signedValue (b :: bs) = (b.toNat % 0x80 : Nat) + 0x80 * signedValue bs := by
  -- the sign is that of the last group, whose place moves up by seven bits
  have last : (b :: bs).getLast? = bs.getLast? := by
    match bs, h with
    | _ :: _, _ => exact List.getLast?_cons_cons
  have place : (2 ^ (7 * (bs.length + 1)) : Nat) = 0x80 * 2 ^ (7 * bs.length) := by
    rw [Nat.mul_succ, Nat.pow_add, Nat.mul_comm]
  rw [signedValue, signedValue, last, unsignedValue, List.length_cons, place]
  split <;> omega

/-! ## 2. What the readers accept -/

/-- The bytes are an encoding of an unsigned number. -/
def Unsigned (n : Nat) (bs : List UInt8) : Prop :=
  IsEncoding bs ∧ bs.length ≤ 5 ∧ unsignedValue bs = n

/-- The bytes are an encoding of a signed number. -/
def Signed (z : Int) (bs : List UInt8) : Prop :=
  IsEncoding bs ∧ bs.length ≤ 5 ∧ signedValue bs = z

/-- The bytes are an encoding of an unsigned number of 31 bits. -/
def Small (n : Nat) (bs : List UInt8) : Prop := n < 2 ^ 31 ∧ Unsigned n bs

/-- The bytes are an encoding of a signed number with the low 32 bits of `z`. -/
def Word (z : Int32) (bs : List UInt8) : Prop := ∃ wide, Signed wide bs ∧ z = Int32.ofInt wide

/-- The bytes are an encoding of an optional index, which is never the highest one. -/
def Index : Option UInt32 → List UInt8 → Prop
  | none, bs => Unsigned 0 bs
  | some index, bs => index.toNat + 1 < 2 ^ 32 ∧ Unsigned (index.toNat + 1) bs

theorem Index.lt {index? : Option UInt32} {bs : List UInt8} (h : Index index? bs) :
    ∀ index ∈ index?, index.toNat + 1 < 2 ^ 32 := by
  rintro index ⟨⟩
  exact h.1

theorem Index.length_pos {index? : Option UInt32} {bs : List UInt8} (h : Index index? bs) :
    0 < bs.length := by
  cases index? with
  | none => exact h.1.length_pos
  | some index => exact h.2.1.length_pos

instance (n : Nat) (bs : List UInt8) : Decidable (Unsigned n bs) :=
  inferInstanceAs (Decidable (_ ∧ _))

instance (z : Int) (bs : List UInt8) : Decidable (Signed z bs) :=
  inferInstanceAs (Decidable (_ ∧ _))

instance (n : Nat) (bs : List UInt8) : Decidable (Small n bs) :=
  inferInstanceAs (Decidable (_ ∧ _))

instance decidableIndex : (index? : Option UInt32) → (bs : List UInt8) → Decidable (Index index? bs)
  | none, bs => inferInstanceAs (Decidable (Unsigned 0 bs))
  | some _, _ => inferInstanceAs (Decidable (_ ∧ _))

theorem parses_unsignedGroups (start k : Nat) : Parses (unsignedGroups start k) fun n bs =>
    IsEncoding bs ∧ bs.length ≤ k + 1 ∧ unsignedValue bs = n ∧ n < 2 ^ (7 * k + 4) := by
  induction k with
  | zero =>
    refine Parses.congr (.cons fun b => .ite _ (.throw _) (.ite _ (.throw _) (.pure _)))
      fun n bs => ?_
    simp only [if_false_left, Nat.not_le, Nat.not_lt]
    constructor
    · rintro ⟨b, _, ⟨lt, small, rfl, rfl⟩, rfl⟩
      exact ⟨isEncoding_singleton.mpr lt, Nat.le_refl _, unsignedValue_singleton lt, by omega⟩
    · rintro ⟨encoding, length, rfl, small⟩
      match bs with
      | [b] =>
        have lt := isEncoding_singleton.mp encoding
        rw [unsignedValue_singleton lt] at small ⊢
        exact ⟨b, [], ⟨lt, by omega, rfl, rfl⟩, rfl⟩
  | succ k ih =>
    refine Parses.congr (.cons fun b => .ite _ (.pure _) (ih.bind_pure _)) fun n bs => ?_
    have power : 2 ^ (7 * (k + 1) + 4) = 0x80 * 2 ^ (7 * k + 4) := by
      rw [show 7 * (k + 1) + 4 = 7 * k + 4 + 7 by omega, Nat.pow_add, Nat.mul_comm]
    rw [power]
    constructor
    · rintro ⟨b, rest, groups, rfl⟩
      split at groups
      · next lt =>
        obtain ⟨rfl, rfl⟩ := groups
        have pos := Nat.two_pow_pos (7 * k + 4)
        exact ⟨isEncoding_singleton.mpr lt, by rw [List.length_singleton]; omega,
          unsignedValue_singleton lt, by omega⟩
      · next ge =>
        obtain ⟨m, ⟨encoding, length, rfl, small⟩, rfl⟩ := groups
        exact ⟨(isEncoding_cons encoding.ne_nil).mpr ⟨Nat.not_lt.mp ge, encoding⟩,
          Nat.succ_le_succ length, rfl, by omega⟩
    · rintro ⟨encoding, length, rfl, small⟩
      match bs with
      | [b] =>
        have lt := isEncoding_singleton.mp encoding
        exact ⟨b, [], by rw [if_pos lt]; exact ⟨unsignedValue_singleton lt, rfl⟩, rfl⟩
      | b :: c :: tail =>
        obtain ⟨ge, rest⟩ := encoding
        rw [unsignedValue] at small
        exact ⟨b, c :: tail, by
          rw [if_neg (Nat.not_lt.mpr ge)]
          exact ⟨_, ⟨rest, Nat.le_of_succ_le_succ length, rfl, by omega⟩, rfl⟩, rfl⟩

theorem parses_signedGroups (start k : Nat) : Parses (signedGroups start k) fun z bs =>
    IsEncoding bs ∧ bs.length ≤ k + 1 ∧ signedValue bs = z := by
  induction k with
  | zero =>
    refine Parses.congr (.cons fun b => .ite _ (.throw _) (.pure _)) fun z bs => ?_
    simp only [if_false_left, Nat.not_le]
    constructor
    · rintro ⟨b, _, ⟨lt, rfl, rfl⟩, rfl⟩
      exact ⟨isEncoding_singleton.mpr lt, Nat.le_refl _, signedValue_singleton⟩
    · rintro ⟨encoding, length, rfl⟩
      match bs with
      | [b] => exact ⟨b, [], ⟨isEncoding_singleton.mp encoding, signedValue_singleton, rfl⟩, rfl⟩
  | succ k ih =>
    refine Parses.congr (.cons fun b => .ite _ (.pure _) (ih.bind_pure _)) fun z bs => ?_
    constructor
    · rintro ⟨b, rest, groups, rfl⟩
      split at groups
      · next lt =>
        obtain ⟨rfl, rfl⟩ := groups
        exact ⟨isEncoding_singleton.mpr lt, by rw [List.length_singleton]; omega,
          signedValue_singleton⟩
      · next ge =>
        obtain ⟨m, ⟨encoding, length, rfl⟩, rfl⟩ := groups
        exact ⟨(isEncoding_cons encoding.ne_nil).mpr ⟨Nat.not_lt.mp ge, encoding⟩,
          Nat.succ_le_succ length, signedValue_cons encoding.ne_nil⟩
    · rintro ⟨encoding, length, rfl⟩
      match bs with
      | [b] =>
        have lt := isEncoding_singleton.mp encoding
        exact ⟨b, [], by rw [if_pos lt]; exact ⟨signedValue_singleton, rfl⟩, rfl⟩
      | b :: c :: tail =>
        obtain ⟨ge, rest⟩ := encoding
        exact ⟨b, c :: tail, by
          rw [if_neg (Nat.not_lt.mpr ge)]
          exact ⟨_, ⟨rest, Nat.le_of_succ_le_succ length, rfl⟩,
            signedValue_cons (List.cons_ne_nil c tail)⟩, rfl⟩

theorem parses_unsigned : Parses unsigned fun n bs => Unsigned n.toNat bs := by
  refine Parses.congr (.here fun start => (parses_unsignedGroups start 4).bind_pure _)
    fun n bs => ?_
  constructor
  · rintro ⟨m, ⟨encoding, length, rfl, small⟩, rfl⟩
    exact ⟨encoding, length, (UInt32.toNat_ofNat_of_lt' small).symm⟩
  · rintro ⟨encoding, length, value⟩
    exact ⟨n.toNat, ⟨encoding, length, value, n.toNat_lt⟩, UInt32.ofNat_toNat.symm⟩

theorem parses_small : Parses small fun n bs => Small n.toNat bs := by
  refine Parses.congr (.here fun start => parses_unsigned.bind fun n =>
    .ite _ (.pure n) (.throw _)) fun n bs => ?_
  constructor
  · rintro ⟨m, xs, _, unsigned, found, rfl⟩
    split at found
    · next small =>
      obtain ⟨rfl, rfl⟩ := found
      exact ⟨small, by rwa [List.append_nil]⟩
    · exact found.elim
  · rintro ⟨small, unsigned⟩
    exact ⟨n, bs, [], unsigned, by rw [if_pos small]; exact ⟨rfl, rfl⟩, (List.append_nil bs).symm⟩

theorem parses_index? : Parses index? Index := by
  refine Parses.congr (parses_unsigned.bind_pure _) fun index bs => ?_
  constructor
  · rintro ⟨n, unsigned, rfl⟩
    by_cases zero : n = 0
    · subst zero
      exact unsigned
    · have pos : n.toNat ≠ 0 := fun h => zero (UInt32.toNat_inj.mp h)
      have next : (n - 1).toNat + 1 = n.toNat := by
        have one_le : (1 : UInt32) ≤ n := UInt32.le_iff_toNat_le.mpr (Nat.pos_of_ne_zero pos)
        rw [UInt32.toNat_sub_of_le n 1 one_le]
        exact Nat.succ_pred pos
      rw [if_neg zero]
      exact ⟨next ▸ n.toNat_lt, by rwa [next]⟩
  · cases index with
    | none => exact fun unsigned => ⟨0, unsigned, rfl⟩
    | some index =>
      rintro ⟨small, unsigned⟩
      have next : (index + 1).toNat = index.toNat + 1 := by
        rw [UInt32.toNat_add]
        exact Nat.mod_eq_of_lt small
      have positive : index + 1 ≠ 0 := by
        intro zero
        have := congrArg UInt32.toNat zero
        rw [next] at this
        cases this
      refine ⟨index + 1, by rwa [next], ?_⟩
      rw [if_neg positive, UInt32.add_sub_cancel]

theorem parses_signed : Parses signed Word :=
  .here fun start => (parses_signedGroups start 4).bind_pure _

/-! ## 3. Locality -/

theorem local_unsignedGroups (k : Nat) : Local fun start => unsignedGroups start k :=
  Parses.toLocal fun start => parses_unsignedGroups start k

theorem local_signedGroups (k : Nat) : Local fun start => signedGroups start k :=
  Parses.toLocal fun start => parses_signedGroups start k

/-! ## 4. Shortest encodings -/

-- A byte that is computed as a number is that number.
theorem toNat_group {n : Nat} (lt : n < 0x100) : (UInt8.ofNat n).toNat = n :=
  UInt8.toNat_ofNat_of_lt' lt

theorem groups_ofUnsigned (k n : Nat) (small : n < 2 ^ (7 * k + 7)) :
    IsEncoding (ofUnsigned n) ∧ (ofUnsigned n).length ≤ k + 1 ∧
      unsignedValue (ofUnsigned n) = n := by
  induction k generalizing n with
  | zero =>
    have lt : n < 0x80 := small
    have byte := toNat_group (show n < 0x100 by omega)
    rw [ofUnsigned, if_pos lt]
    exact ⟨isEncoding_singleton.mpr (by rwa [byte]), Nat.le_refl _, by
      rw [unsignedValue_singleton (by rwa [byte]), byte]⟩
  | succ k ih =>
    rw [ofUnsigned]
    by_cases last : n < 0x80
    · have byte := toNat_group (show n < 0x100 by omega)
      rw [if_pos last]
      exact ⟨isEncoding_singleton.mpr (by rwa [byte]), Nat.le_add_left 1 _, by
        rw [unsignedValue_singleton (by rwa [byte]), byte]⟩
    · have byte := toNat_group (show n % 0x80 + 0x80 < 0x100 by omega)
      have power : 2 ^ (7 * (k + 1) + 7) = 2 ^ (7 * k + 7) * 0x80 := by
        rw [Nat.mul_succ, Nat.pow_add _ (7 * k + 7)]
      obtain ⟨encoding, length, value⟩ := ih (n / 0x80) (by omega)
      rw [if_neg last]
      refine ⟨(isEncoding_cons encoding.ne_nil).mpr ⟨by omega, encoding⟩,
        Nat.succ_le_succ length, ?_⟩
      rw [unsignedValue, value, byte]
      omega

theorem unsigned_ofUnsigned {n : Nat} (small : n < 2 ^ 32) : Unsigned n (ofUnsigned n) :=
  groups_ofUnsigned 4 n (by omega)

-- A number of seven bits is the value of its group.
theorem lastGroup_emod {z : Int} (low : -0x40 ≤ z) (high : z < 0x40) :
    lastGroup (z % 0x80).toNat = z := by
  rw [lastGroup, twosComplement]
  split <;> omega

theorem signed_group {z : Int} (low : -0x40 ≤ z) (high : z < 0x40) :
    IsEncoding [UInt8.ofNat (z % 0x80).toNat] ∧
      signedValue [UInt8.ofNat (z % 0x80).toNat] = z := by
  have byte := toNat_group (show (z % 0x80).toNat < 0x100 by omega)
  rw [isEncoding_singleton, signedValue_singleton, byte, lastGroup_emod low high]
  exact ⟨by omega, rfl⟩

theorem groups_ofSigned (k : Nat) (z : Int) (low : -(2 ^ (7 * k + 6) : Nat) ≤ z)
    (high : z < (2 ^ (7 * k + 6) : Nat)) :
    IsEncoding (ofSigned z) ∧ (ofSigned z).length ≤ k + 1 ∧ signedValue (ofSigned z) = z := by
  induction k generalizing z with
  | zero =>
    change -0x40 ≤ z at low
    change z < 0x40 at high
    obtain ⟨encoding, value⟩ := signed_group low high
    rw [ofSigned, if_pos ⟨low, high⟩]
    exact ⟨encoding, Nat.le_refl _, value⟩
  | succ k ih =>
    rw [ofSigned]
    by_cases last : -0x40 ≤ z ∧ z < 0x40
    · obtain ⟨encoding, value⟩ := signed_group last.1 last.2
      rw [if_pos last]
      exact ⟨encoding, Nat.le_add_left 1 _, value⟩
    · have byte := toNat_group (show (z % 0x80).toNat + 0x80 < 0x100 by omega)
      have power : (2 ^ (7 * (k + 1) + 6) : Nat) = 2 ^ (7 * k + 6) * 0x80 := by
        rw [Nat.mul_succ, Nat.add_right_comm, Nat.pow_add]
      obtain ⟨encoding, length, value⟩ := ih (z / 0x80) (by omega) (by omega)
      rw [if_neg last]
      refine ⟨(isEncoding_cons encoding.ne_nil).mpr ⟨by omega, encoding⟩,
        Nat.succ_le_succ length, ?_⟩
      rw [signedValue_cons encoding.ne_nil, value, byte]
      omega

theorem signed_ofSigned {z : Int} (low : -(2 ^ 31 : Nat) ≤ z) (high : z < (2 ^ 31 : Nat)) :
    Signed z (ofSigned z) :=
  groups_ofSigned 4 z (by omega) (by omega)

theorem small_ofUnsigned {n : UInt32} (small : n.toNat < 2 ^ 31) :
    Small n.toNat (ofUnsigned n.toNat) :=
  ⟨small, unsigned_ofUnsigned n.toNat_lt⟩

theorem word_ofSigned (z : Int32) : Word z (ofSigned z.toInt) :=
  ⟨z.toInt, signed_ofSigned z.le_toInt z.toInt_lt, z.ofInt_toInt.symm⟩

theorem index_ofIndex? {index? : Option UInt32}
    (small : ∀ index ∈ index?, index.toNat + 1 < 2 ^ 32) : Index index? (ofIndex? index?) := by
  cases index? with
  | none => exact unsigned_ofUnsigned (by decide)
  | some index => exact ⟨small index rfl, unsigned_ofUnsigned (small index rfl)⟩

end DalvikCode.Leb128
