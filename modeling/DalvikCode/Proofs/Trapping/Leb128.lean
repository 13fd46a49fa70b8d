import DalvikCode.Proofs.Leb128
import DalvikCode.Proofs.Trapping.Operations

/-!
# LEB128 numbers on machine words

A loop puts the groups of a number into a word of 32 bits, each shifted behind those before it.
Only the check of the fifth byte keeps the shift below the width of the word.  Each reader is the
execution of the one of the same name.
-/

namespace DalvikCode.Trapping

theorem number_ok {width n : Nat} {c c' : Cursor} (h : number width c = .ok n c') :
    c' = c.advance width ∧ c.pos + width ≤ c.data.size := by
  rw [number, checkedAdd] at h
  by_cases word : c.pos + width < 2 ^ 64
  · simp only [if_pos word] at h
    split at h
    · cases h
    · next fits =>
      refine ⟨?_, Nat.not_lt.mp fits⟩
      split at h
      · cases h
      · split at h
        · cases h
          rfl
        · cases h
  · simp only [if_neg word] at h
    cases h

/-! ## 1. Unsigned numbers -/

/-- Reads the groups of an unsigned number that began at `start`, `value` being made of the `shift`
bits before. -/
def unsignedFrom (start shift value : Nat) (c : Cursor) : EStateM.Result Fault Cursor Nat :=
  match _read : number 1 c with
  | .error e c => .error e c
  | .ok b c =>
    if shift = 28 ∧ b &&& 0x80 ≠ 0 then
      .error (.failed (.malformed (.ulebUnterminated start))) c
    else if shift = 28 ∧ 0x0f < b then .error (.failed (.malformed (.ulebOutOfRange start))) c
    else match shiftLeft 32 (b &&& 0x7f) shift with
      | .error t => .error (.trap t) c
      | .ok group =>
        if b &&& 0x80 = 0 then .ok (value ||| group) c
        else match add 31 shift 7 with
          | .error t => .error (.trap t) c
          | .ok shift => unsignedFrom start shift (value ||| group) c
  termination_by c.data.size - c.pos
  decreasing_by
    obtain ⟨rfl, fits⟩ := number_ok _read
    rw [Cursor.data_advance, Cursor.pos_advance]
    omega

def unsigned : Execution UInt32 := do
  return UInt32.ofNat (← unsignedFrom (← position) 0 0)

theorem and_low_bits (b : Nat) : b &&& 0x7f = b % 0x80 := Nat.and_two_pow_sub_one_eq_mod b 7

theorem and_high_bit_eq_zero_iff {b : Nat} (h : b < 0x100) : b &&& 0x80 = 0 ↔ b < 0x80 := by
  revert b
  decide +kernel

-- A group is put behind the bits before it without touching them.
theorem or_shifted {value shift : Nat} (group : Nat) (h : value < 2 ^ shift) :
    value ||| group * 2 ^ shift = value + 2 ^ shift * group := by
  rw [Nat.mul_comm, Nat.or_comm, ← Nat.two_pow_add_eq_or_of_lt h, Nat.add_comm]

-- A group that is not the fifth one stays whole.
theorem shiftLeft_group (b : Nat) {shift : Nat} (h : shift ≤ 21) :
    shiftLeft 32 (b &&& 0x7f) shift = .ok (b % 0x80 * 2 ^ shift) := by
  have group : b % 0x80 < 2 ^ 7 := Nat.mod_lt b (by decide)
  have power : 2 ^ shift ≤ 2 ^ 21 := Nat.pow_le_pow_right (by decide) h
  have whole : b % 0x80 * 2 ^ shift < 2 ^ 32 :=
    calc b % 0x80 * 2 ^ shift ≤ 2 ^ 7 * 2 ^ 21 := Nat.mul_le_mul (Nat.le_of_lt group) power
      _ < 2 ^ 32 := by decide
  rw [shiftLeft_of_lt (by omega), and_low_bits, Nat.mod_eq_of_lt whole]

-- The bits before a group and the group make up seven more bits.
theorem group_lt {value shift : Nat} (b : Nat) (h : value < 2 ^ shift) :
    value + 2 ^ shift * (b % 0x80) < 2 ^ (shift + 7) := by
  have group : b % 0x80 + 1 ≤ 2 ^ 7 := Nat.mod_lt b (by decide)
  have scaled := Nat.mul_le_mul_left (2 ^ shift) group
  rw [Nat.mul_succ] at scaled
  rw [Nat.pow_add]
  omega

theorem byte_of_error {c c' : Cursor} {f : Fault} (memory : InMemory c)
    (read : number 1 c = .error f c') : ∃ e, f = .failed e ∧ Reader.byte c = .error e c' := by
  rw [number_eq 1 c memory.size_lt] at read
  exact ofReader_eq_error.mp read

-- The two tests of the high bit, by mask and by comparison, go the same way on a byte.
theorem byte_of_ok {c c' : Cursor} {b : Nat} (memory : InMemory c) (read : number 1 c = .ok b c') :
    Reader.byte c = .ok b c' ∧ InMemory c' ∧ (b &&& 0x80 = 0 ↔ b < 0x80) := by
  rw [number_eq 1 c memory.size_lt] at read
  have read : Reader.byte c = .ok b c' := ofReader_eq_ok.mp read
  have lt : b < 0x100 := Reader.lt_of_number read
  exact ⟨read, (forward_of_local (.number 1) 0 memory read).1, and_high_bit_eq_zero_iff lt⟩

-- With `k` groups to come behind the next one, what the loop reads is put behind the bits before
-- it.  Until the shift is 28 a group fits the word whole; at 28 the check of the byte decides.
theorem unsignedFrom_eq (start k : Nat) {shift value : Nat} (left : shift + 7 * k = 28)
    (low : value < 2 ^ shift) (c : Cursor) (memory : InMemory c) :
    unsignedFrom start shift value c = match Leb128.unsignedGroups start k c with
      | .ok n c' => .ok (value + 2 ^ shift * n) c'
      | .error e c' => .error (.failed e) c' := by
  induction k generalizing shift value c with
  | zero =>
    obtain rfl : shift = 28 := left
    rw [unsignedFrom, Leb128.unsignedGroups]
    split
    · next f c' read =>
      obtain ⟨e, rfl, failed⟩ := byte_of_error memory read
      rw [Reader.bind_of_error failed]
    · next b c' read =>
      obtain ⟨read, -, last⟩ := byte_of_ok memory read
      rw [Reader.bind_of_ok read]
      by_cases ends : b < 0x80
      · by_cases fits : 0x0f < b
        · rw [if_neg fun h => h.2 (last.mpr ends), if_pos ⟨rfl, fits⟩, if_neg (Nat.not_le.mpr ends),
            if_pos fits]
          rfl
        · -- four bits shifted by 28 are within the word
          have group : shiftLeft 32 (b &&& 0x7f) 28 = .ok (b * 2 ^ 28) := by
            rw [shiftLeft_of_lt (by decide), and_low_bits, Nat.mod_eq_of_lt ends,
              Nat.mod_eq_of_lt (by omega)]
          rw [if_neg fun h => h.2 (last.mpr ends), if_neg fun h => fits h.2,
            if_neg (Nat.not_le.mpr ends), if_neg fits, group]
          show (if b &&& 0x80 = 0 then _ else _) = _
          rw [if_pos (last.mpr ends), or_shifted b low]
          rfl
      · rw [if_pos ⟨rfl, fun h => ends (last.mp h)⟩, if_pos (Nat.not_lt.mp ends)]
        rfl
  | succ k ih =>
    have early : shift ≠ 28 := by omega
    rw [unsignedFrom, Leb128.unsignedGroups]
    split
    · next f c' read =>
      obtain ⟨e, rfl, failed⟩ := byte_of_error memory read
      rw [Reader.bind_of_error failed]
    · next b c' read =>
      obtain ⟨read, memory', last⟩ := byte_of_ok memory read
      rw [Reader.bind_of_ok read, if_neg fun h => early h.1, if_neg fun h => early h.1,
        shiftLeft_group b (by omega)]
      show (if b &&& 0x80 = 0 then _ else _) = _
      rw [or_shifted _ low]
      by_cases ends : b < 0x80
      · rw [if_pos (last.mpr ends), if_pos ends, Nat.mod_eq_of_lt ends]
        rfl
      · rw [if_neg fun h => ends (last.mp h), if_neg ends, add_of_lt (by omega)]
        show unsignedFrom start (shift + 7) (value + 2 ^ shift * (b % 0x80)) c' = _
        rw [ih (by omega) (group_lt b low) c' memory']
        cases rest : Leb128.unsignedGroups start k c' with
        | error e c'' => rw [Reader.bind_of_error rest]
        | ok n c'' =>
          rw [Reader.bind_of_ok rest]
          show EStateM.Result.ok _ c'' =
            EStateM.Result.ok (value + 2 ^ shift * (b % 0x80 + 0x80 * n)) c''
          rw [Nat.mul_add, ← Nat.mul_assoc, Nat.pow_add, Nat.add_assoc]

theorem agrees_unsigned {low : Nat} : Agrees low unsigned Leb128.unsigned := by
  refine .here fun start _ =>
    .bind (.of_eq (Leb128.local_unsignedGroups 4) start ?_) fun _ => .pure _
  intro c memory
  rw [unsignedFrom_eq start 4 rfl (by decide) c memory, ofReader]
  cases Leb128.unsignedGroups start 4 c with
  | ok n c' => simp only [Nat.zero_add, Nat.pow_zero, Nat.one_mul]
  | error e c' => rfl

def small : Execution UInt32 := do
  let start ← position
  let n ← unsigned
  if n.toNat < 2 ^ 31 then return n
  else throw (.failed (.malformed (.ulebOutOfRange start)))

theorem agrees_small {low : Nat} : Agrees low small Leb128.small :=
  .here fun _ _ => agrees_unsigned.bind fun n => .ite _ (.pure n) (.throw _)

def index? : Execution (Option UInt32) := do
  let n ← unsigned
  return if n = 0 then none else some (n - 1)

theorem agrees_index? {low : Nat} : Agrees low index? Leb128.index? :=
  agrees_unsigned.bind fun _ => .pure _

/-! ## 2. Signed numbers -/

/-- Reads the groups of a signed number that began at `start`, `value` being made of the `shift`
bits before.  If the last group is negative, the bits above it are filled with ones. -/
def signedFrom (start shift value : Nat) (c : Cursor) : EStateM.Result Fault Cursor Int32 :=
  match _read : number 1 c with
  | .error e c => .error e c
  | .ok b c =>
    if shift = 28 ∧ b &&& 0x80 ≠ 0 then
      .error (.failed (.malformed (.slebUnterminated start))) c
    else match shiftLeft 32 (b &&& 0x7f) shift with
      | .error t => .error (.trap t) c
      | .ok group => match add 31 shift 7 with
        | .error t => .error (.trap t) c
        | .ok shift =>
          if b &&& 0x80 = 0 then
            if shift < 32 ∧ b &&& 0x40 ≠ 0 then match shiftLeft 32 (2 ^ 32 - 1) shift with
              | .error t => .error (.trap t) c
              | .ok ones => .ok (UInt32.ofNat (value ||| group ||| ones)).toInt32 c
            else .ok (UInt32.ofNat (value ||| group)).toInt32 c
          else signedFrom start shift (value ||| group) c
  termination_by c.data.size - c.pos
  decreasing_by
    obtain ⟨rfl, fits⟩ := number_ok _read
    rw [Cursor.data_advance, Cursor.pos_advance]
    omega

def signed : Execution Int32 := do
  signedFrom (← position) 0 0

-- Of an integer the low 32 bits count.
theorem toInt32_ofNat_eq {n : Nat} {z : Int} (k : Int) (h : (n : Int) = z + (2 ^ 32 : Nat) * k) :
    (UInt32.ofNat n).toInt32 = Int32.ofInt z := by
  rw [UInt32.toInt32_ofNat', ← Int32.ofInt_eq_ofNat, h]
  apply Int32.toInt.inj
  rw [Int32.toInt_ofInt, Int32.toInt_ofInt]
  exact Int.add_mul_bmod_self_left z (2 ^ 32) k

theorem and_sign_bit_eq_zero_iff {b : Nat} (h : b < 0x80) : b &&& 0x40 = 0 ↔ b < 0x40 := by
  revert b
  decide +kernel

theorem shiftLeft_ones {shift : Nat} (h : shift < 32) :
    shiftLeft 32 (2 ^ 32 - 1) shift = .ok ((2 ^ (32 - shift) - 1) * 2 ^ shift) := by
  have bits : (2 ^ 32 - 1) * 2 ^ shift % 2 ^ 32 = (2 ^ (32 - shift) - 1) * 2 ^ shift := by
    revert shift
    decide +kernel
  rw [shiftLeft_of_lt h, bits]

-- The fifth group loses its upper three bits.
theorem fifth_group (value b : Nat) (low : value < 2 ^ 28) :
    (UInt32.ofNat (value ||| b % 0x80 * 2 ^ 28 % 2 ^ 32)).toInt32 =
      Int32.ofInt (value + 2 ^ 28 * Leb128.lastGroup b) := by
  have kept : b % 0x80 * 2 ^ 28 % 2 ^ 32 = b % 0x10 * 2 ^ 28 := by omega
  rw [kept, or_shifted _ low, Leb128.lastGroup, twosComplement]
  split
  · exact toInt32_ofNat_eq (-(b % 0x80 / 0x10 : Nat)) (by omega)
  · exact toInt32_ofNat_eq (8 - (b % 0x80 / 0x10 : Nat)) (by omega)

-- A last group that is not negative is continued by zeros.
theorem plain_group {shift value b : Nat} (positive : b < 0x40) :
    (UInt32.ofNat (value + 2 ^ shift * b)).toInt32 =
      Int32.ofInt (value + (2 ^ shift : Nat) * Leb128.lastGroup b) := by
  have group : Leb128.lastGroup b = b := by
    rw [Leb128.lastGroup, twosComplement, Nat.mod_eq_of_lt (by omega)]
    exact if_pos positive
  rw [group]
  exact toInt32_ofNat_eq 0 (by omega)

-- A negative last group is continued by ones.
theorem filled_group {shift value b : Nat} (le : shift ≤ 21) (low : value < 2 ^ shift)
    (last : b < 0x80) (negative : ¬ b < 0x40) :
    (UInt32.ofNat (value + 2 ^ shift * b |||
      (2 ^ (32 - (shift + 7)) - 1) * 2 ^ (shift + 7))).toInt32 =
      Int32.ofInt (value + (2 ^ shift : Nat) * Leb128.lastGroup b) := by
  have bits := group_lt b low
  rw [Nat.mod_eq_of_lt last] at bits
  have scale : 2 ^ (shift + 7) = 2 ^ shift * 0x80 := Nat.pow_add 2 shift 7
  have ones : 2 ^ (shift + 7) * (2 ^ (32 - (shift + 7)) - 1) + 2 ^ (shift + 7) = 2 ^ 32 := by
    rw [← Nat.mul_succ, Nat.succ_eq_add_one, Nat.sub_add_cancel Nat.one_le_two_pow, ← Nat.pow_add,
      Nat.add_sub_cancel' (by omega)]
  have group : Leb128.lastGroup b = b - 0x80 := by
    rw [Leb128.lastGroup, twosComplement, Nat.mod_eq_of_lt last]
    exact if_neg negative
  rw [or_shifted _ bits, group, Int.mul_sub]
  exact toInt32_ofNat_eq 1 (by omega)

-- The same induction; only the last group has a sign.
theorem signedFrom_eq (start k : Nat) {shift value : Nat} (left : shift + 7 * k = 28)
    (low : value < 2 ^ shift) (c : Cursor) (memory : InMemory c) :
    signedFrom start shift value c = match Leb128.signedGroups start k c with
      | .ok z c' => .ok (Int32.ofInt (value + (2 ^ shift : Nat) * z)) c'
      | .error e c' => .error (.failed e) c' := by
  induction k generalizing shift value c with
  | zero =>
    obtain rfl : shift = 28 := left
    rw [signedFrom, Leb128.signedGroups]
    split
    · next f c' read =>
      obtain ⟨e, rfl, failed⟩ := byte_of_error memory read
      rw [Reader.bind_of_error failed]
    · next b c' read =>
      obtain ⟨read, -, last⟩ := byte_of_ok memory read
      rw [Reader.bind_of_ok read]
      by_cases ends : b < 0x80
      · rw [if_neg fun h => h.2 (last.mpr ends), if_neg (Nat.not_le.mpr ends),
          shiftLeft_of_lt (by decide), add_of_lt (by decide), and_low_bits]
        show (if b &&& 0x80 = 0 then _ else _) = _
        -- behind the fifth group the shift is 35, so nothing is filled in
        rw [if_pos (last.mpr ends), if_neg fun h => absurd h.1 (by decide), fifth_group value b low]
        rfl
      · rw [if_pos ⟨rfl, fun h => ends (last.mp h)⟩, if_pos (Nat.not_lt.mp ends)]
        rfl
  | succ k ih =>
    have early : shift ≠ 28 := by omega
    have le : shift ≤ 21 := by omega
    rw [signedFrom, Leb128.signedGroups]
    split
    · next f c' read =>
      obtain ⟨e, rfl, failed⟩ := byte_of_error memory read
      rw [Reader.bind_of_error failed]
    · next b c' read =>
      obtain ⟨read, memory', last⟩ := byte_of_ok memory read
      rw [Reader.bind_of_ok read, if_neg fun h => early h.1, shiftLeft_group b le,
        add_of_lt (by omega)]
      show (if b &&& 0x80 = 0 then _ else _) = _
      rw [or_shifted _ low]
      by_cases ends : b < 0x80
      · rw [if_pos (last.mpr ends), if_pos ends, Nat.mod_eq_of_lt ends]
        have sign := and_sign_bit_eq_zero_iff ends
        by_cases negative : b < 0x40
        · rw [if_neg fun h => h.2 (sign.mpr negative), plain_group negative]
          rfl
        · rw [if_pos ⟨by omega, fun h => negative (sign.mp h)⟩, shiftLeft_ones (by omega)]
          show EStateM.Result.ok _ c' = EStateM.Result.ok _ c'
          rw [filled_group le low ends negative]
      · rw [if_neg fun h => ends (last.mp h), if_neg ends,
          ih (by omega) (group_lt b low) c' memory']
        cases rest : Leb128.signedGroups start k c' with
        | error e c'' => rw [Reader.bind_of_error rest]
        | ok z c'' =>
          rw [Reader.bind_of_ok rest]
          show EStateM.Result.ok _ c'' = EStateM.Result.ok _ c''
          have scale : ((2 ^ (shift + 7) : Nat) : Int) = (2 ^ shift : Nat) * 0x80 := by
            rw [Nat.pow_add, Int.natCast_mul]
            rfl
          have split : ((value + 2 ^ shift * (b % 0x80) : Nat) : Int) +
              (2 ^ (shift + 7) : Nat) * z = value + (2 ^ shift : Nat) * (b % 0x80 + 0x80 * z) := by
            rw [scale, Int.mul_add, Int.mul_assoc, Int.natCast_add, Int.natCast_mul, Int.add_assoc]
            rfl
          rw [split]

theorem agrees_signed {low : Nat} : Agrees low signed Leb128.signed := by
  refine .here fun start _ =>
    .of_eq ((Leb128.local_signedGroups 4).bind fun z => .pure (Int32.ofInt z)) start ?_
  intro c memory
  rw [signedFrom_eq start 4 rfl (by decide) c memory, ofReader]
  cases groups : Leb128.signedGroups start 4 c with
  | ok z c' =>
    rw [Reader.bind_of_ok groups]
    show EStateM.Result.ok (Int32.ofInt (0 + 1 * z)) c' = EStateM.Result.ok (Int32.ofInt z) c'
    rw [Int.zero_add, Int.one_mul]
  | error e c' => rw [Reader.bind_of_error groups]

end DalvikCode.Trapping
