import DalvikCode.Proofs.Instruction.Chunks

/-!
# Instructions as a prefix code

The bytes of an instruction are decoded to the same instruction wherever they stand, and whatever
stands around them.  Where they are cut off, decoding runs out of bytes, so none of them are the
beginning of other ones.
-/

namespace DalvikCode.Instruction

/-- Where the data ends inside the bytes of an instruction, decoding runs out of bytes. -/
theorem decode_of_cut {bs : List UInt8} {x : Content} {c : Cursor} (h : Spells bs x)
    (within : c.pos ≤ c.data.size) (inside : ∃ b more, bs = c.rest ++ b :: more)
    (address : UInt32) : ∃ c', decode address c = .error .outOfBounds c' := by
  obtain ⟨c', failed⟩ := (h c.pos).cut c within inside
  exact ⟨c', decode_of_error failed⟩

-- The bytes of an instruction are not the beginning of those of another one.
theorem Accepts.eq_of_isPrefix {w v : List UInt8} {i j : Instruction} (h : Accepts w i)
    (h' : Accepts v j) (starts : w <+: v) : v = w := by
  obtain ⟨x, spells, -⟩ := accepts_iff.mp h
  obtain ⟨y, spells', -⟩ := accepts_iff.mp h'
  obtain ⟨more, eq⟩ := starts
  rw [← List.append_nil v] at eq
  exact (spells.eq_of_append spells' eq).1.symm

/-- Some bytes start with an instruction.  The bytes that decoding passes are this instruction at
every place and address, in front of and behind any other bytes; a decoder that is given less of them
runs out of bytes.  So the bytes of an instruction are not continued by those of another one, and
nothing but them has a part in what is decoded. -/
theorem decode_prefixCode {w : List UInt8} {home : UInt32} {i : Instruction} {c : Cursor}
    (ok : decode home (.start w.toByteArray) = .ok i c) :
    let code := w.take c.pos
    code.length = c.pos ∧
    (∀ (pre post : ByteArray) (address : UInt32),
      let place : Cursor := ⟨pre ++ code.toByteArray ++ post, pre.size⟩
      decode address place =
        .ok { i with offset := pre.size, address } (place.advance c.pos)) ∧
    (∀ (pre : ByteArray) (address : UInt32), ∀ j < c.pos, ∃ c',
      decode address ⟨pre ++ (w.take j).toByteArray, pre.size⟩ = .error .outOfBounds c') ∧
    (Accepts code { i with address := 0 } ∧
      ∀ other k, Accepts other k → code <+: other → other = code) ∧
    ∀ (d : Cursor) (address : UInt32), d.Sees code →
      decode address d = .ok { i with offset := d.pos, address } (d.advance c.pos) := by
  intro code
  obtain ⟨pos_le, -, x, spells, rfl⟩ := spells_take_of_decode ok
  have length : (w.take c.pos).length = c.pos := List.length_take_of_le pos_le
  have anywhere (d : Cursor) (address : UInt32) (sees : d.Sees code) :
      decode address d = .ok (x.place d.pos address c.pos) (d.advance c.pos) := by
    rw [decode_of_spells spells sees address, length]
  have accepts : Accepts code (x.place 0 0 c.pos) :=
    accepts_iff.mpr ⟨x, spells, by rw [length]⟩
  refine ⟨length, fun pre post address => anywhere _ address (Cursor.sees_behind pre post code),
    fun pre address j lt => ?_, ⟨accepts, fun other k => accepts.eq_of_isPrefix⟩, anywhere⟩
  -- what is left out of the code begins with a byte
  have inside : j < code.length := by rw [length]; exact lt
  refine decode_of_cut spells ?_ ⟨code[j], code.drop (j + 1), ?_⟩ address
  · simp only [ByteArray.size_append]
    omega
  · rw [Cursor.rest_behind, ← List.drop_eq_getElem_cons inside]
    have cut : w.take j = code.take j := by
      rw [List.take_take, Nat.min_eq_left (Nat.le_of_lt lt)]
    rw [cut, List.take_append_drop]

/-- A switch with one key, and the first byte of what follows it. -/
def sparseSwitch : List UInt8 :=
  [0x00, 0x02, 0x01, 0x00, 0xff, 0xff, 0xff, 0xff, 0x06, 0x00, 0x00, 0x00, 0x0e]

theorem decode_prefixCode_of_sparseSwitch :
    ∃ i c, decode 3 (.start sparseSwitch.toByteArray) = .ok i c ∧ c.pos = 12 ∧
      decode 8 ⟨⟨#[0xaa]⟩ ++ (sparseSwitch.take 12).toByteArray ++ ⟨#[0xbb]⟩, 1⟩ =
        .ok { i with offset := 1, address := 8 }
          ⟨⟨#[0xaa]⟩ ++ (sparseSwitch.take 12).toByteArray ++ ⟨#[0xbb]⟩, 13⟩ ∧
      ∃ c', decode 8 ⟨⟨#[0xaa]⟩ ++ (sparseSwitch.take 11).toByteArray, 1⟩ =
        .error .outOfBounds c' := by
  have ok : decode 3 (.start sparseSwitch.toByteArray) = .ok _ ⟨sparseSwitch.toByteArray, 12⟩ := rfl
  obtain ⟨-, same, short, -⟩ := decode_prefixCode ok
  exact ⟨_, _, ok, rfl, same ⟨#[0xaa]⟩ ⟨#[0xbb]⟩ 8, short ⟨#[0xaa]⟩ 8 11 (by decide)⟩

end DalvikCode.Instruction
