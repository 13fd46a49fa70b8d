import DalvikCode.Proofs.Instruction.Stream

/-!
# Walks that see the whole image

A walk decodes from a view that ends with the stream.  The format is specified by another walk: it
decodes from the whole image and refuses an instruction that ends behind the stream.  Both find the
same instructions and stop at the same place, although they fail for different reasons.
-/

namespace DalvikCode.InstructionStream

open Instruction Traversal

/-- Walks on from `offset` as specified, where the instructions in `done` have been passed; the
number returned is the offset at which the walk ended. -/
def specifiedFrom (s : InstructionStream) (offset : Nat) (done : Array Instruction) :
    Trace Instruction × Nat :=
  if offset < s.stop then
    match _decoded : decode (s.addressAt offset) ⟨s.image, offset⟩ with
    | .ok i after =>
      if after.pos ≤ s.stop then s.specifiedFrom after.pos (done.push i)
      else (⟨done, some (.malformedInstruction offset (.crossesEnd (some i.size) s.stop))⟩, offset)
    | .error e _ => (⟨done, some e⟩, offset)
  else (⟨done, none⟩, offset)
  termination_by s.stop - offset
  decreasing_by
    have : offset < after.pos := (lt_of_decode _decoded).1
    omega

/-- Walks the whole stream as specified. -/
def specified (s : InstructionStream) : Trace Instruction × Nat := s.specifiedFrom s.start #[]

section
variable {s : InstructionStream} (standard : s.decoder = Instruction.decode)
include standard

-- What the whole image shows to end in the stream, the view shows as well.
theorem decodeAt_of_decode {offset : Nat} {i : Instruction} {after : Cursor}
    (decoded : decode (s.addressAt offset) ⟨s.image, offset⟩ = .ok i after)
    (within : after.pos ≤ s.stop) :
    s.decodeAt s.view offset = .ok ⟨i, after.pos, (lt_of_decode decoded).1, within⟩ := by
  obtain ⟨bs, x, spells, sees, after_eq, instruction_eq⟩ := spells_of_decode decoded
  have next_eq : after.pos = offset + bs.length := by rw [after_eq, Cursor.pos_advance]
  exact (decodeAt_eq_ok_iff standard).mpr
    ⟨bs, x, spells, sees, by rw [← next_eq]; exact within, instruction_eq, next_eq⟩

-- What the view shows, the whole image shows to end in the stream.
theorem decode_of_decodeAt {offset : Nat} {d : Decoded offset s.stop}
    (ok : s.decodeAt s.view offset = .ok d) :
    ∃ after, decode (s.addressAt offset) ⟨s.image, offset⟩ = .ok d.instruction after ∧
      after.pos ≤ s.stop := by
  obtain ⟨bs, x, spells, sees, within, instruction_eq, -⟩ := (decodeAt_eq_ok_iff standard).mp ok
  have decoded := decode_of_spells spells sees (s.addressAt offset)
  rw [← instruction_eq] at decoded
  exact ⟨_, decoded, within⟩

-- Where the whole image shows no instruction that ends in the stream, a step fails, and blames the
-- instruction at its offset.
theorem decodeAt_error_of_decode {offset : Nat} (bounded : s.IsBounded) (inside : offset < s.stop)
    (refused : ∀ i after, decode (s.addressAt offset) ⟨s.image, offset⟩ = .ok i after →
      s.stop < after.pos) :
    ∃ what, s.decodeAt s.view offset = .error (.malformedInstruction offset what) := by
  cases failed : s.decodeAt s.view offset with
  | ok d =>
    obtain ⟨after, decoded, within⟩ := decode_of_decodeAt standard failed
    exact absurd (refused _ after decoded) (Nat.not_lt.mpr within)
  | error e =>
    obtain ⟨what, rfl⟩ := malformed_of_decodeAt standard bounded inside failed
    exact ⟨what, rfl⟩

/-- Two walks passed the same instructions and ended at the same offset: both at the end of the
stream, or both with a failure.  The first one blames the instruction there. -/
def EndsAlike (stop : Nat) (view whole : Trace Instruction) (viewEnd wholeEnd : Nat) : Prop :=
  view.items = whole.items ∧ viewEnd = wholeEnd ∧
    ((view.failure? = none ∧ whole.failure? = none ∧ viewEnd = stop) ∨
      ∃ what e, view.failure? = some (.malformedInstruction viewEnd what) ∧
        whole.failure? = some e)

theorem runFrom_endsAlike (bounded : s.IsBounded) (offset : Nat) (done : Array Instruction)
    (le : offset ≤ s.stop) :
    EndsAlike s.stop (s.runFrom s.view offset done).1 (s.specifiedFrom offset done).1
      (s.runFrom s.view offset done).2.position (s.specifiedFrom offset done).2 := by
  -- along the recursion of the specified walk; each of its branches fixes one step of the other
  fun_induction specifiedFrom s offset done with
  | case1 offset done inside i after decoded within ih =>
    rw [runFrom, if_pos inside, decodeAt_of_decode standard decoded within]
    exact ih within
  | case2 offset done inside i after decoded crosses =>
    obtain ⟨what, failed⟩ := decodeAt_error_of_decode standard bounded inside fun i' after' ok => by
      rw [decoded] at ok
      cases ok
      exact Nat.not_le.mp crosses
    rw [runFrom, if_pos inside, failed]
    exact ⟨rfl, rfl, .inr ⟨what, _, rfl, rfl⟩⟩
  | case3 offset done inside e after decoded =>
    obtain ⟨what, failed⟩ := decodeAt_error_of_decode standard bounded inside fun i' after' ok => by
      rw [decoded] at ok
      cases ok
    rw [runFrom, if_pos inside, failed]
    exact ⟨rfl, rfl, .inr ⟨what, _, rfl, rfl⟩⟩
  | case4 offset done outside =>
    rw [runFrom, if_neg outside]
    exact ⟨rfl, rfl, .inl ⟨rfl, rfl, Nat.le_antisymm le (Nat.not_lt.mp outside)⟩⟩

end

/-- In a stream that lies in its image, the walk that sees the bytes up to the end of the stream
agrees with the specified one. -/
theorem run_endsAlike_specified (image : ByteArray) (start stop : Nat) (le : start ≤ stop)
    (bounded : stop ≤ image.size) :
    let s : InstructionStream := { image, start, stop }
    EndsAlike stop s.run.1 s.specified.1 s.run.2.position s.specified.2 ∧
      Yields s.traversal s.run.1.results.toList s.run.2 := by
  intro s
  exact ⟨runFrom_endsAlike (s := s) rfl bounded start #[] le, s.yields_run⟩

/-- A literal of two code units, of which the stream holds the first. -/
theorem run_endsAlike_specified_of_crossing : (2 ≤ 4 ∧ 4 ≤ 6) ∧
    let s : InstructionStream :=
      { image := ⟨#[0x00, 0x00, 0x13, 0x00, 0x05, 0x00]⟩, start := 2, stop := 4 }
    EndsAlike 4 s.run.1 s.specified.1 s.run.2.position s.specified.2 ∧
      Yields s.traversal s.run.1.results.toList s.run.2 :=
  ⟨by decide, run_endsAlike_specified ⟨#[0x00, 0x00, 0x13, 0x00, 0x05, 0x00]⟩ 2 4 (by decide)
    (by decide)⟩

end DalvikCode.InstructionStream
