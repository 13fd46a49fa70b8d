import DalvikCode.Proofs.Access
import DalvikCode.Proofs.Trapping.Header
import DalvikCode.Proofs.Trapping.Instruction

/-!
# Access to bytes on machine words

Every way to the bytes checks bounds of its own: the end of a range is a sum that may be no word,
and the padding of an alignment is computed from a difference and two remainders.  On a slice all
of them admit what the comparison of exact numbers admits.
-/

namespace DalvikCode.Trapping

/-! ## 1. Moving and looking ahead -/

/-- Moves to `pos`, which has to be the position of a byte. -/
def seek (pos : Nat) : Execution Unit := fun c =>
  if c.data.size ≤ pos then .error (.failed .outOfBounds) c else .ok () { c with pos }

/-- Moves to the next multiple of `n`, which is not zero. -/
def align (n : Nat) : Execution Unit := do
  let distance ← sub n ((← position) % n)
  skip (distance % n)

/-- The value of an integer type that follows, without moving. -/
def peek (s : Scalar) : Execution Int := fun c =>
  match scalar s c with
  | .ok v _ => .ok v c
  | .error f _ => .error f c

theorem seek_eq (pos : Nat) (c : Cursor) : seek pos c = ofReader (Reader.seek pos) c := by
  unfold seek ofReader Reader.seek
  by_cases inside : pos < c.data.size
  · simp only [if_neg (Nat.not_le.mpr inside), if_pos inside]
  · simp only [if_pos (Nat.not_lt.mp inside), if_neg inside]

-- A remainder is less than what is divided by, so the distance to the next multiple is a word.
theorem agrees_align {low n : Nat} (positive : 0 < n) : Agrees low (align n) (Reader.align n) := by
  apply Agrees.here
  intro place _
  have le : place % n ≤ n := Nat.le_of_lt (Nat.mod_lt place positive)
  exact .operation (sub_of_le le) (.skip _)

theorem map_eq {α β : Type} {m : Execution α} {r : Reader α} {c : Cursor} (f : α → β)
    (h : m c = ofReader r c) : (f <$> m) c = ofReader (f <$> r) c := by
  rw [map_eq_pure_bind, map_eq_pure_bind]
  unfold ofReader at h ⊢
  cases read : r c with
  | ok a c' =>
    rw [read] at h
    rw [bind_ok h, Reader.bind_of_ok read]
    rfl
  | error e c' =>
    rw [read] at h
    rw [bind_error h, Reader.bind_of_error read]

-- A value is read alike wherever the cursor stands, and be it behind the end.
theorem scalar_eq (s : Scalar) (c : Cursor) (size_lt : c.data.size < 2 ^ 63) :
    scalar s c = ofReader (Reader.scalar s) c :=
  map_eq s.value (number_eq s.width c size_lt)

theorem peek_eq (s : Scalar) (c : Cursor) (size_lt : c.data.size < 2 ^ 63) :
    peek s c = ofReader (Reader.peek s) c := by
  unfold peek
  rw [scalar_eq s c size_lt]
  unfold ofReader Reader.peek
  cases Reader.scalar s c with
  | ok v c' => rfl
  | error e c' => rfl

/-! ## 2. Reading at an offset -/

/-- Reads a value at `offset` and returns it with the offset behind it. -/
def readAt (s : Scalar) (data : ByteArray) (offset : Nat) : Except Fault Int × Nat :=
  match scalar s ⟨data, offset⟩ with
  | .ok v c => (.ok v, c.pos)
  | .error f c => (.error f, c.pos)

def u32At (data : ByteArray) (offset : Nat) : Except Fault UInt32 :=
  UInt32.ofNat <$> numberAt data offset 4

/-- The `length` bytes from `offset`, all of which have to be present. -/
def slice (data : ByteArray) (offset length : Nat) : Except Fault ByteArray := do
  let stop ← checked (checkedAdd offset length)
  if data.size < stop then throw (.failed .outOfBounds) else range data offset stop

/-- The answer of an execution, without the cursor. -/
def answer {α : Type} (m : Execution α) (c : Cursor) : Except Fault α :=
  match m c with
  | .ok v _ => .ok v
  | .error f _ => .error f

/-- The answer of an execution that starts at an offset, where a cursor can be put there. -/
def answerAt {α : Type} (m : Execution α) (data : ByteArray) (offset : Nat) : Except Fault α := do
  answer m (← ofExcept (Cursor.at? data offset))

theorem answer_eq {α : Type} {m : Execution α} {r : Reader α} {c : Cursor}
    (h : m c = ofReader r c) : answer m c = ofExcept (r.answer c) := by
  unfold answer Reader.answer
  rw [h, ofReader]
  cases r c with
  | ok v c' => rfl
  | error e c' => rfl

theorem answerAt_eq {α : Type} {m : Execution α} {r : Reader α} {data : ByteArray}
    (h : ∀ c : Cursor, c.data = data → m c = ofReader r c) (offset : Nat) :
    answerAt m data offset = ofExcept (r.answerAt data offset) := by
  apply bind_of_eq rfl
  intro c put
  unfold Cursor.at? at put
  split at put
  · cases put
    exact answer_eq (h _ rfl)
  · cases put

section
variable {data : ByteArray} (size_lt : data.size < 2 ^ 63) (offset : Nat)
include size_lt

theorem readAt_eq (s : Scalar) :
    readAt s data offset = (ofExcept (s.readAt data offset).1, (s.readAt data offset).2) := by
  unfold readAt
  rw [scalar_eq s ⟨data, offset⟩ size_lt, ofReader, Reader.scalar_eq_readAt]
  rcases s.readAt data offset with ⟨_ | _, stop⟩ <;> rfl

theorem u32At_eq : u32At data offset = ofExcept (Bytes.u32At data offset) :=
  map_of_eq _ (numberAt_eq size_lt offset 4)

-- A range that ends in a slice has an end that is a word.
theorem slice_eq (length : Nat) :
    slice data offset length = ofExcept (Bytes.slice data offset length) := by
  unfold slice Bytes.slice
  rw [checkedAdd_eq, checkedOffset]
  by_cases fits : offset + length ≤ data.size
  · rw [if_pos (by omega), if_pos fits]
    show (if data.size < offset + length then _ else _) = _
    rw [if_neg (Nat.not_lt.mpr fits), range_of_le (Nat.le_add_right _ _) fits]
    rfl
  · rw [if_neg fits]
    split
    · show (if data.size < offset + length then _ else _) = _
      rw [if_pos (Nat.not_le.mp fits)]
      rfl
    · rfl

/-- In data of less than `2 ^ 63` bytes, all ways to the bytes from an offset on agree with each
other, and do on words of 64 bits what they do on exact numbers, for every offset that such a word
can hold and without a trap. -/
theorem accesses_agree : AccessesAgree data offset ∧
    (∀ s : Scalar, readAt s data offset =
      (ofExcept (s.readAt data offset).1, (s.readAt data offset).2)) ∧
    (∀ s : Scalar, answerAt (scalar s) data offset = ofExcept (s.readAt data offset).1) ∧
    (∀ s : Scalar, answerAt (peek s) data offset = ofExcept (s.readAt data offset).1) ∧
    u16At data offset = ofExcept (Bytes.u16At data offset) ∧
    u32At data offset = ofExcept (Bytes.u32At data offset) ∧
    smallAt data offset = ofExcept (Bytes.smallAt data offset) ∧
    ∀ source : ImageSource, source.bytes = data → ∀ length,
      slice source.bytes offset length = ofExcept (source.slice offset length) := by
  have agree := accessesAgree data offset
  refine ⟨agree, readAt_eq size_lt offset, fun s => ?_, fun s => ?_, u16At_eq size_lt offset,
    u32At_eq size_lt offset, smallAt_eq size_lt offset, ?_⟩
  · rw [← agree.scalar s]
    exact answerAt_eq (fun c same => scalar_eq s c (same ▸ size_lt)) offset
  · rw [← agree.peek s]
    exact answerAt_eq (fun c same => peek_eq s c (same ▸ size_lt)) offset
  · intro source same length
    subst same
    exact slice_eq size_lt offset length

end

/-- A byte, and the least signed byte. -/
def leastByte : ByteArray := ⟨#[0x01, 0x80]⟩

-- The last byte read with its sign, and the last offset of all, where a sum is no word.
theorem accesses_agree_of_leastByte : leastByte.size < 2 ^ 63 ∧
    (∃ word, Bytes.WordAt leastByte 1 1 word ∧
      readAt .i8 leastByte 1 = (.ok (Scalar.i8.ofWord word), 2)) ∧
    answerAt (peek .i8) leastByte 1 = .ok (-128) ∧
    readAt .i8 leastByte (2 ^ 64 - 1) = (.error (.failed .outOfBounds), 2 ^ 64 - 1) ∧
    slice leastByte (2 ^ 64 - 1) 1 = .error (.failed .outOfBounds) := by
  have size_lt : leastByte.size < 2 ^ 63 := by decide
  obtain ⟨inside, read, -, peeked, -⟩ := accesses_agree size_lt 1
  obtain ⟨outside, read', -, -, -, -, -, sliced⟩ := accesses_agree size_lt (2 ^ 64 - 1)
  obtain ⟨word, stands, value⟩ := inside.present .i8 (by decide)
  have cutOff := outside.cutOff .i8 (by decide)
  refine ⟨size_lt, ⟨word, stands, ?_⟩, (peeked .i8).trans rfl, ?_, ?_⟩
  · rw [read, value]
    rfl
  · rw [read', cutOff]
    rfl
  · exact (sliced (.memory leastByte) rfl 1).trans rfl

end DalvikCode.Trapping
