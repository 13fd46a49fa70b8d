import DalvikCode.Image
import DalvikCode.Proofs.Words

/-!
# Ways to the bytes at an offset

A value can be read at an offset, or by a cursor that is put there, and the bytes can be taken out
of a source.  Each of these has a test of its own for what is present.  All of them pass for the
same offsets, and what they give is the word that stands there.
-/

namespace DalvikCode

/-! ## 1. Values of words -/

namespace Scalar

/-- The value of a word: in two's complement if the type is signed. -/
def ofWord (s : Scalar) (word : BitVec (8 * s.width)) : Int :=
  if s.isSigned then word.toInt else word.toNat

theorem value_eq_ofWord (s : Scalar) {n : Nat} (lt : n < 2 ^ (8 * s.width)) :
    s.value n = s.ofWord (BitVec.ofNat (8 * s.width) n) := by
  unfold value ofWord
  rw [twosComplement_eq_toInt lt, BitVec.toNat_ofNat, Nat.mod_eq_of_lt lt]

section
variable {s : Scalar} {data : ByteArray} {offset : Nat}

theorem readAt_of_le (fits : offset + s.width ≤ data.size) :
    s.readAt data offset =
      (.ok (s.value (Bytes.number data offset s.width)), offset + s.width) := by
  unfold readAt Bytes.numberAt
  rw [if_pos fits]

theorem readAt_of_lt (short : data.size < offset + s.width) :
    s.readAt data offset = (.error .outOfBounds, offset) := by
  unfold readAt Bytes.numberAt
  rw [if_neg (Nat.not_le.mpr short)]

/-- What is read is the word at the offset. -/
theorem exists_word (fits : offset + s.width ≤ data.size) :
    ∃ word, Bytes.WordAt data offset s.width word ∧
      s.readAt data offset = (.ok (s.ofWord word), offset + s.width) := by
  have lt : Bytes.number data offset s.width < 2 ^ (8 * s.width) := by
    rw [Nat.pow_mul]
    exact Bytes.number_lt data offset s.width
  refine ⟨_, Bytes.wordAt_number fits, ?_⟩
  rw [readAt_of_le fits, value_eq_ofWord s lt]

end

end Scalar

/-! ## 2. Readers at an offset -/

namespace Reader

/-- The answer of a reader, without the cursor. -/
def answer {α : Type} (r : Reader α) (c : Cursor) : Except DecodeError α :=
  match r c with
  | .ok v _ => .ok v
  | .error e _ => .error e

/-- The answer of a reader that starts at an offset, where a cursor can be put there. -/
def answerAt {α : Type} (r : Reader α) (data : ByteArray) (offset : Nat) :
    Except DecodeError α := do
  r.answer (← Cursor.at? data offset)

-- A cursor reads what stands at its position, and moves like the offset.
theorem scalar_eq_readAt (s : Scalar) (c : Cursor) :
    scalar s c = match s.readAt c.data c.pos with
      | (.ok v, stop) => .ok v { c with pos := stop }
      | (.error e, stop) => .error e { c with pos := stop } := by
  by_cases fits : c.pos + s.width ≤ c.data.size
  · have read : number s.width c = .ok (Bytes.number c.data c.pos s.width) (c.advance s.width) := by
      unfold number
      exact if_pos fits
    rw [Scalar.readAt_of_le fits, scalar, map_eq_pure_bind, bind_of_ok read]
    rfl
  · have failed : number s.width c = .error .outOfBounds c := by
      unfold number
      exact if_neg fits
    rw [Scalar.readAt_of_lt (Nat.not_le.mp fits), scalar, map_eq_pure_bind, bind_of_error failed]

theorem peek_eq_readAt (s : Scalar) (c : Cursor) :
    peek s c = match (s.readAt c.data c.pos).1 with
      | .ok v => .ok v c
      | .error e => .error e c := by
  unfold peek
  rw [scalar_eq_readAt]
  rcases s.readAt c.data c.pos with ⟨_ | _, stop⟩ <;> rfl

-- Behind the end, where no cursor can be put, there is no value either.
theorem answerAt_eq_readAt {r : Reader Int} {s : Scalar}
    (answer_eq : ∀ c, r.answer c = (s.readAt c.data c.pos).1) (data : ByteArray) (offset : Nat) :
    r.answerAt data offset = (s.readAt data offset).1 := by
  unfold answerAt Cursor.at?
  by_cases inside : offset ≤ data.size
  · rw [if_pos inside]
    exact answer_eq ⟨data, offset⟩
  · have short : data.size < offset + s.width := by omega
    rw [if_neg inside, Scalar.readAt_of_lt short]
    rfl

theorem answer_scalar (s : Scalar) (c : Cursor) :
    (scalar s).answer c = (s.readAt c.data c.pos).1 := by
  unfold answer
  rw [scalar_eq_readAt]
  rcases s.readAt c.data c.pos with ⟨_ | _, stop⟩ <;> rfl

theorem answer_peek (s : Scalar) (c : Cursor) :
    (peek s).answer c = (s.readAt c.data c.pos).1 := by
  unfold answer
  rw [peek_eq_readAt]
  rcases s.readAt c.data c.pos with ⟨_ | _, stop⟩ <;> rfl

end Reader

/-! ## 3. Every way to the bytes -/

namespace Bytes

variable {data : ByteArray} {offset : Nat}

-- A word of an unsigned type is its number.
theorem map_numberAt {α : Type} {s : Scalar} (plain : s.isSigned = false) {conv : Nat → α}
    {toNat : α → Nat} (exact : ∀ n < 256 ^ s.width, toNat (conv n) = n) :
    (fun n => (toNat n : Int)) <$> conv <$> numberAt data offset s.width =
      (s.readAt data offset).1 := by
  unfold Scalar.readAt numberAt
  by_cases fits : offset + s.width ≤ data.size
  · have same := exact _ (number_lt data offset s.width)
    rw [if_pos fits]
    show Except.ok (toNat (conv _) : Int) = Except.ok (s.value _)
    rw [Scalar.value, plain, same]
    rfl
  · rw [if_neg fits]
    rfl

theorem smallAt_eq : smallAt data offset = (do
    let n ← u32At data offset
    if n ≤ 0x7fffffff then return n else throw (.malformed (.smallFieldOutOfRange offset))) := by
  unfold smallAt u32At numberAt
  by_cases fits : offset + 4 ≤ data.size
  · rw [if_pos fits]
    have small : UInt32.ofNat (number data offset 4) ≤ 0x7fffffff ↔
        number data offset 4 < 2 ^ 31 := by
      rw [UInt32.le_iff_toNat_le, UInt32.toNat_ofNat_of_lt' (number_lt data offset 4)]
      exact Nat.lt_succ_iff.symm
    show (if _ then _ else _) = (if UInt32.ofNat (number data offset 4) ≤ 0x7fffffff then _ else _)
    simp only [small]
  · rw [if_neg fits]
    rfl

theorem slice_of_le {length : Nat} (fits : offset + length ≤ data.size) :
    ∃ bytes, slice data offset length = .ok bytes ∧ bytes.size = length ∧
      ∀ k < length, bytes[k]? = data[offset + k]? := by
  have size : (data.extract offset (offset + length)).size = length := by
    rw [ByteArray.size_extract]
    omega
  refine ⟨data.extract offset (offset + length), if_pos fits, size, fun k lt => ?_⟩
  have inside : k < (data.extract offset (offset + length)).size := by rwa [size]
  rw [getElem?_pos _ k inside, getElem?_pos data (offset + k) (by omega), ByteArray.getElem_extract]

end Bytes

/-- All ways to the bytes from an offset on have the same tests for what is present.  A value is the
word that stands there, whether it is read at the offset or by a cursor that is put there. -/
structure AccessesAgree (data : ByteArray) (offset : Nat) : Prop where
  present : ∀ s : Scalar, offset + s.width ≤ data.size → ∃ word,
    Bytes.WordAt data offset s.width word ∧
      s.readAt data offset = (.ok (s.ofWord word), offset + s.width)
  cutOff : ∀ s : Scalar, data.size < offset + s.width →
    s.readAt data offset = (.error .outOfBounds, offset)
  scalar : ∀ s : Scalar, (Reader.scalar s).answerAt data offset = (s.readAt data offset).1
  peek : ∀ s : Scalar, (Reader.peek s).answerAt data offset = (s.readAt data offset).1
  u16At : (fun n : UInt16 => (n.toNat : Int)) <$> Bytes.u16At data offset =
    (Scalar.u16.readAt data offset).1
  u32At : (fun n : UInt32 => (n.toNat : Int)) <$> Bytes.u32At data offset =
    (Scalar.u32.readAt data offset).1
  smallAt : Bytes.smallAt data offset = (do
    let n ← Bytes.u32At data offset
    if n ≤ 0x7fffffff then return n else throw (.malformed (.smallFieldOutOfRange offset)))
  slice : ∀ source : ImageSource, source.bytes = data → ∀ length,
    if offset + length ≤ data.size then
      ∃ bytes, source.slice offset length = .ok bytes ∧ bytes.size = length ∧
        ∀ k < length, bytes[k]? = data[offset + k]?
    else source.slice offset length = .error .outOfBounds

theorem accessesAgree (data : ByteArray) (offset : Nat) : AccessesAgree data offset where
  present _ := Scalar.exists_word
  cutOff _ := Scalar.readAt_of_lt
  scalar s := Reader.answerAt_eq_readAt (Reader.answer_scalar s) data offset
  peek s := Reader.answerAt_eq_readAt (Reader.answer_peek s) data offset
  u16At := Bytes.map_numberAt (s := .u16) rfl fun _ => UInt16.toNat_ofNat_of_lt'
  u32At := Bytes.map_numberAt (s := .u32) rfl fun _ => UInt32.toNat_ofNat_of_lt'
  smallAt := Bytes.smallAt_eq
  slice := by
    intro source same length
    subst same
    split
    · next fits => exact Bytes.slice_of_le fits
    · next short => exact if_neg short

end DalvikCode
