import DalvikCode.Proofs.Instruction.Decoding
import DalvikCode.Proofs.Instruction.Traversal

/-!
# One step of a walk

Up to the end of a stream, the view that its walk decodes from shows the same bytes as the image.
So a step succeeds exactly if an instruction stands at its offset and ends in the stream.
-/

namespace DalvikCode.InstructionStream

open Instruction

/-! ## 1. The view of a stream -/

theorem rest_view (s : InstructionStream) (offset : Nat) (bounded : s.IsBounded) :
    (⟨s.view, offset⟩ : Cursor).rest =
      (⟨s.image, offset⟩ : Cursor).rest.take (s.stop - offset) := by
  rw [view, if_pos bounded]
  show List.drop offset (s.image.extract 0 s.stop).data.toList = _
  rw [ByteArray.data_extract, Array.toList_extract, List.extract_eq_take_drop, List.drop_zero,
    Nat.sub_zero, List.drop_take]
  rfl

theorem size_view (s : InstructionStream) (bounded : s.IsBounded) : s.view.size = s.stop := by
  have inside : s.stop ≤ s.image.size := bounded
  rw [view, if_pos bounded, ByteArray.size_extract]
  omega

theorem size_view_le (s : InstructionStream) :
    s.view.size ≤ s.stop ∧ s.view.size ≤ s.image.size := by
  by_cases bounded : s.IsBounded
  · rw [size_view s bounded]
    exact ⟨Nat.le_refl _, bounded⟩
  · rw [view, if_neg bounded]
    exact ⟨Nat.le_of_lt (Nat.not_le.mp bounded), Nat.le_refl _⟩

-- Bytes that end in the stream are in its view if they are in the image.
theorem sees_view_iff (s : InstructionStream) {offset : Nat} {bs : List UInt8}
    (within : offset + bs.length ≤ s.stop) :
    (⟨s.view, offset⟩ : Cursor).Sees bs ↔ (⟨s.image, offset⟩ : Cursor).Sees bs := by
  by_cases bounded : s.IsBounded
  · have inside : s.stop ≤ s.image.size := bounded
    -- what follows in the image goes on behind the view; what follows in the view is cut off
    constructor
    · rintro ⟨-, more, eq⟩
      rw [rest_view s offset bounded] at eq
      refine ⟨show offset ≤ s.image.size by omega,
        more ++ List.drop (s.stop - offset) (⟨s.image, offset⟩ : Cursor).rest, ?_⟩
      rw [← List.append_assoc, ← eq, List.take_append_drop]
    · rintro ⟨-, more, eq⟩
      refine ⟨show offset ≤ s.view.size by rw [size_view s bounded]; omega,
        more.take (s.stop - offset - bs.length), ?_⟩
      rw [rest_view s offset bounded, eq, List.take_append, List.take_of_length_le (by omega)]
  · rw [view, if_neg bounded]

/-! ## 2. Steps -/

theorem decodeAt_of_le (s : InstructionStream) {offset : Nat} (pos_le : offset ≤ s.view.size) :
    s.decodeAt s.view offset = match s.decoder (s.addressAt offset) ⟨s.view, offset⟩ with
      | .error e _ => .error (s.failureAt offset e)
      | .ok i after =>
        if progress : offset < after.pos then
          if within : after.pos ≤ s.stop then .ok ⟨i, after.pos, progress, within⟩
          else .error (.malformedInstruction offset (.crossesEnd (some i.size) s.stop))
        else .error (.malformedInstruction offset .noProgress) := by
  rw [decodeAt, Cursor.at?, if_pos pos_le]
  rfl

section
variable {s : InstructionStream} (standard : s.decoder = Instruction.decode)
include standard

theorem decodeAt_eq {offset : Nat} (pos_le : offset ≤ s.view.size) :
    s.decodeAt s.view offset = match decode (s.addressAt offset) ⟨s.view, offset⟩ with
      | .error e _ => .error (s.failureAt offset e)
      | .ok i after =>
        if progress : offset < after.pos then
          if within : after.pos ≤ s.stop then .ok ⟨i, after.pos, progress, within⟩
          else .error (.malformedInstruction offset (.crossesEnd (some i.size) s.stop))
        else .error (.malformedInstruction offset .noProgress) := by
  rw [decodeAt_of_le s pos_le, standard]

/-- A step succeeds exactly on the bytes of an instruction that ends in the stream. -/
theorem decodeAt_eq_ok_iff {offset : Nat} {d : Decoded offset s.stop} :
    s.decodeAt s.view offset = .ok d ↔ ∃ bs x, Spells bs x ∧
      (⟨s.image, offset⟩ : Cursor).Sees bs ∧ offset + bs.length ≤ s.stop ∧
      d.instruction = x.place offset (s.addressAt offset) bs.length ∧
      d.next = offset + bs.length := by
  constructor
  · intro ok
    by_cases pos_le : offset ≤ s.view.size
    · rw [decodeAt_eq standard pos_le] at ok
      split at ok
      · cases ok
      · next i after decoded =>
        obtain ⟨bs, x, spells, sees, rfl, rfl⟩ := spells_of_decode decoded
        split at ok
        · split at ok
          · next within =>
            cases ok
            exact ⟨bs, x, spells, (sees_view_iff s within).mp sees, within, rfl, rfl⟩
          · cases ok
        · cases ok
    · rw [decodeAt, Cursor.at?, if_neg pos_le] at ok
      cases ok
  · rintro ⟨bs, x, spells, sees, within, instruction_eq, next_eq⟩
    have two_le := spells.two_le_length
    have sees := (sees_view_iff s within).mpr sees
    have pos_le : offset ≤ s.view.size := sees.pos_le
    rw [decodeAt_eq standard pos_le, decode_of_spells spells sees]
    have progress : offset < offset + bs.length := by omega
    simp only [Cursor.pos_advance, progress, within, ↓reduceDIte]
    obtain ⟨instruction, next, offset_lt, next_le⟩ := d
    cases instruction_eq
    cases next_eq
    rfl

-- In a stream that ends in the image, a step that fails blames the instruction at its offset.
theorem malformed_of_decodeAt {offset : Nat} {e : DecodeError} (bounded : s.IsBounded)
    (inside : offset < s.stop) (failed : s.decodeAt s.view offset = .error e) :
    ∃ what, e = .malformedInstruction offset what := by
  have pos_le : offset ≤ s.view.size := by
    rw [size_view s bounded]
    omega
  rw [decodeAt_eq standard pos_le] at failed
  split at failed
  -- running out of bytes means that the view ends inside the instruction
  · next e' _ decoded =>
    cases failed
    rcases failsAt_of_decode decoded with rfl | ⟨what, rfl⟩
    · exact ⟨.crossesEnd none s.stop, by rw [failureAt, if_pos bounded]⟩
    · exact ⟨what, rfl⟩
  · split at failed
    · split at failed
      · cases failed
      · cases failed
        exact ⟨_, rfl⟩
    · cases failed
      exact ⟨_, rfl⟩

end

end DalvikCode.InstructionStream
